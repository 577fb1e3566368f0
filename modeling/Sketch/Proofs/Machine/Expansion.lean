import Sketch.Proofs.Machine.Bisimulation
import Sketch.Proofs.Syntax.Expansion

/-!
A machine does the same with a program as with its expansion. What is still to be done in one is the expansion of that
in the other, apart from statements that are spread over several blocks.
-/

namespace Sketch

/-! ### What is still to be done -/

def Script.expand (s : Script) : Script :=
  ⟨s.topLevel.flatMap Stmt.expand, s.functions.map FnDef.expand, s.maxCallDepth⟩

def Counting.expand (c : Counting) : Counting := { c with body := c.body.flatMap Stmt.expand }

namespace Clauses

def expand (c : Clauses) : Clauses := ⟨c.test, c.step.map Stmt.expandOne, c.body.flatMap Stmt.expand⟩

/-- The test of a loop with clauses as a loop with a test. -/
def loopTest (c : Clauses) : Expr := c.test.getD (.bool true .nowhere)

/-- The body of a loop with clauses as a loop with a test: the last clause ends it. -/
def loopBody (c : Clauses) : List Stmt := c.body.flatMap Stmt.expand ++ c.step.toList.map Stmt.plain

end Clauses

/-- What is done when no test of a branch holds: the rest of its chain. -/
def expandRest (rest : List (Expr × List Stmt)) (otherwise : Option (List Stmt)) : Option (List Stmt) :=
  if rest.isEmpty then otherwise.map (List.flatMap Stmt.expand)
  else some [Stmt.nest (rest.map Stmt.expandBranch) (otherwise.map (List.flatMap Stmt.expand)) .nowhere]

namespace Cont

/-- The expansion of a continuation that stays one. -/
def expand : Cont → Cont
  | .branch body rest otherwise => .branch (body.flatMap Stmt.expand) [] (expandRest rest otherwise)
  | .countStart c line stop step => .countStart c.expand line stop step
  | .countStop c start line step => .countStop c.expand start line step
  | .countStep c start stop line => .countStep c.expand start stop line
  | .countNext c i stop step => .countNext c.expand i stop step
  | .whileTest test body => .whileTest test (body.flatMap Stmt.expand)
  | .whileNext test body => .whileNext test (body.flatMap Stmt.expand)
  | .clausesStart c => .clausesStart c.expand
  | .clausesTest c => .clausesTest c.expand
  | .clausesStep c => .clausesStep c.expand
  | k => k

/-- Whether a value is awaited for an expression or for an assignment. -/
def awaitsOperand : Cont → Bool
  | .connective .. | .rightOperand .. | .applyBin .. | .applyUn .. | .gather .. | .methodArgs .. | .readField ..
  | .indexKey .. | .readIndex .. | .mapEntry .. | .assignKey .. | .assignIndex .. | .assignField .. | .write .. => true
  | _ => false

/-- Whether a value is awaited for another statement. -/
def awaitsHead : Cont → Bool
  | .branch .. | .countStart .. | .countStop .. | .countStep .. | .whileTest .. | .clausesTest _ | .giveBack => true
  | _ => false

/-- Whether another round of a loop follows. -/
def awaitsRound : Cont → Bool
  | .countNext .. | .whileNext .. | .clausesStart _ | .clausesStep _ => true
  | _ => false

theorem awaitsHead_expand (k : Cont) : k.expand.awaitsHead = k.awaitsHead := by
  cases k <;> rfl

end Cont

/-- Continuations after which the same is done in a program and in its expansion. If `done`, a statement with a return
    may come before them. -/
inductive Mirrors : (done : Bool) → List Cont → List Cont → Prop
  | nil : Mirrors false [] []
  | weaken {ks ks' : List Cont} (rest : Mirrors true ks ks') : Mirrors false ks ks'
  | operand {k : Cont} {ks ks' : List Cont} (kind : k.awaitsOperand = true) (rest : Mirrors false ks ks') :
      Mirrors false (k :: ks) (k :: ks')
  | head {k : Cont} {ks ks' : List Cont} (kind : k.awaitsHead = true) (rest : Mirrors true ks ks') :
      Mirrors false (k :: ks) (k.expand :: ks')
  | round {k : Cont} {ks ks' : List Cont} (kind : k.awaitsRound = true) (rest : Mirrors true ks ks') :
      Mirrors true (k :: ks) (k.expand :: ks')
  | border {k : Cont} {ks ks' : List Cont} (kind : k.isBorder = true) (rest : Mirrors false ks ks') :
      Mirrors true (k :: ks) (k :: ks')
  /-- The end of a block that only the expansion has. -/
  | pad {ks ks' : List Cont} (rest : Mirrors true ks ks') : Mirrors true ks (.block [] :: ks')
  /-- A block may end sooner than its expansion. -/
  | block {ks ks' : List Cont} (body : List Stmt) {more : List Stmt} (rest : Mirrors true ks (.block more :: ks')) :
      Mirrors true (.block body :: ks) (.block (body.flatMap Stmt.expand ++ more) :: ks')
  /-- The first clause of a loop is being done. -/
  | first {ks ks' : List Cont} {c : Clauses} (plain : c.step.all Stmt.isPlain = true) {more : List Stmt}
      (rest : Mirrors true ks (.block more :: ks')) :
      Mirrors false (.clausesStart c :: ks) (.block (.whileDo c.loopTest c.loopBody .nowhere :: more) :: ks')
  /-- The last clause of a loop is being done. -/
  | last {ks ks' : List Cont} {c : Clauses} (plain : c.step.all Stmt.isPlain = true) (rest : Mirrors true ks ks') :
      Mirrors false (.clausesStart c :: ks) (.block [] :: .whileNext c.loopTest c.loopBody :: ks')
  /-- The test of a loop is being done. -/
  | test {ks ks' : List Cont} {c : Clauses} (plain : c.step.all Stmt.isPlain = true) (rest : Mirrors true ks ks') :
      Mirrors false (.clausesTest c :: ks) (.whileTest c.loopTest c.loopBody :: ks')
  /-- The body of a loop is being done. -/
  | body {ks ks' : List Cont} {c : Clauses} (plain : c.step.all Stmt.isPlain = true) (rest : Mirrors true ks ks') :
      Mirrors true (.clausesStep c :: ks)
        (.block (c.step.toList.map Stmt.plain) :: .whileNext c.loopTest c.loopBody :: ks')
  /-- The new value of an assignment with an operator is being evaluated. -/
  | combine {ks ks' : List Cont} (name : String) (op : BinOp) (old : Value) (line : Nat)
      (rest : Mirrors false ks ks') :
      Mirrors false (.write (.name name) (some (op, old)) line :: ks)
        (.applyBin op old line :: .write (.name name) none line :: ks')

/-- The same calls end in both. -/
theorem Mirrors.ends {done : Bool} {ks ks' : List Cont} (mirrors : Mirrors done ks ks') :
    ks.countP Cont.isCallEnd = ks'.countP Cont.isCallEnd := by
  have expand (k : Cont) : k.expand.isCallEnd = k.isCallEnd := by cases k <;> rfl
  induction mirrors with
  | nil => rfl
  | weaken _ ih => exact ih
  | operand _ _ ih | border _ _ ih => rw [List.countP_cons, List.countP_cons, ih]
  | head _ _ ih | round _ _ ih => rw [List.countP_cons, List.countP_cons, expand, ih]
  | pad | block | first | last | test | body | combine => simp_all [Cont.isCallEnd]

/-- Whether something can be done before continuations. -/
def Control.Fits (done : Bool) : Control → Prop
  | .exec _ => False
  | .unwind _ => done = true
  | .eval _ | .deliver _ | .proceed => True

/-! ### Places -/

/-- A statement stands nowhere, and so do its parts. -/
def Stmt.Nowhere (s : Stmt) : Prop := ∃ t : Stmt, s = t.relocate Guise.nowhere.pos

/-- What follows stands nowhere. -/
def Cont.Nowhere (k : Cont) : Prop := ∃ l : Cont, k = l.under .nowhere

variable {s : Stmt}

theorem Stmt.Nowhere.pos (place : s.Nowhere) : s.pos = .nowhere := by
  obtain ⟨t, rfl⟩ := place
  rw [Stmt.relocate_pos]
  rfl

theorem Stmt.Nowhere.init {init : Stmt} {test : Option Expr} {step : Option Stmt} {body : List Stmt} {pos : Pos}
    (place : (Stmt.clauses (some init) test step body pos).Nowhere) : init.Nowhere := by
  obtain ⟨t, same⟩ := place
  cases t with
  | clauses init' test' step' body' pos' =>
    rw [Stmt.relocate, Stmt.relocateClause_eq_map] at same
    injection same with same
    obtain ⟨t, -, rfl⟩ := Option.map_eq_some_iff.mp same.symm
    exact ⟨t, rfl⟩
  | _ => cases same

theorem Cont.Nowhere.stmt {rest : List Stmt} (place : (Cont.block (s :: rest)).Nowhere) :
    s.Nowhere ∧ (Cont.block rest).Nowhere := by
  obtain ⟨l, same⟩ := place
  cases l with
  | block body =>
    injection same with same
    obtain ⟨t, body, rfl, rfl, rfl⟩ := List.map_eq_cons_iff.mp same.symm
    exact ⟨⟨t, rfl⟩, .block body, rfl⟩
  | _ => cases same

theorem Cont.Nowhere.step {l : Clauses} (place : (Cont.clausesStep l).Nowhere) (step : l.step = some s) :
    s.Nowhere := by
  obtain ⟨k, same⟩ := place
  cases k with
  | clausesStep l' =>
    injection same with same
    rw [same] at step
    obtain ⟨t, -, rfl⟩ := Option.map_eq_some_iff.mp step
    exact ⟨t, rfl⟩
  | _ => cases same

namespace Machine

/-- The machine about to do something else, with something else to follow. -/
def doing (m : Machine) (c : Control) (ks : List Cont) : Machine := { m with control := c, conts := ks }

/-- The same machine, once with a program and once with its expansion. -/
inductive Mirror : Machine → Machine → Prop
  | of (m : Machine) {c : Control} {done : Bool} {ks ks' : List Cont} (mirrors : Mirrors done ks ks')
      (fits : c.Fits done) : Mirror (m.doing c ks) (m.doing c ks')

/-- One step of each, to machines that are the same again or to the same halt. -/
inductive StepMirrors : Step → Step → Prop
  | next {n n' : Machine} (mirror : Mirror n n') : StepMirrors (.next n) (.next n')
  | halt {h h' : Step} (alike : h.Alike Mirror h') : StepMirrors h h'

variable {script : Script}

variable {m m' n : Machine} {fuel : Nat}

/-- The two come to stand alike after some steps, or halt alike. -/
abbrev Meets (script : Script) : Machine → Machine → Prop := Meet Mirror script script.expand

theorem Meet.of_steps (mirrors : StepMirrors (m.step script) (m'.step script.expand)) :
    Meets script m m' := by
  generalize one : m.step script = h, two : m'.step script.expand = h' at mirrors
  cases mirrors with
  | next mirror => exact .steps one two mirror
  | halt alike =>
    rw [← one, ← two] at alike
    exact .halts alike

/-! ### Expressions -/

theorem Script.function?_expand (name : String) :
    script.expand.function? name = (script.function? name).map FnDef.expand := by
  rw [Script.function?, Script.function?, Script.expand, List.find?_map]
  rfl

section Helpers

variable {m : Machine} {c : Control} {done : Bool} {ks ks' : List Cont}

theorem doing_assign (name : String) (v : Value) : (m.doing c ks).assign name v = (m.assign name v).doing c ks := by
  obtain ⟨control, conts, frames, globals, world, sent⟩ := m
  cases frames with
  | nil => rfl
  | cons f rest =>
    change (if f.params.contains name then _ else _ : Machine) =
      (if f.params.contains name then _ else _ : Machine).doing c ks
    split <;> rfl

theorem doing_moveTo (pos : Pos) : (m.doing c ks).moveTo pos = (m.moveTo pos).doing c ks := by
  obtain ⟨control, conts, frames, globals, world, sent⟩ := m
  cases frames <;> rfl

theorem fail_mirrors {c' : Control} (same : ks.countP Cont.isCallEnd = ks'.countP Cont.isCallEnd) (line : Nat)
    (cause : Cause) : StepMirrors ((m.doing c ks).fail line cause) ((m.doing c' ks').fail line cause) := by
  rw [fail_eq, fail_eq]
  exact .halt (.failed ⟨rfl, by simp only [doing, same]⟩ rfl)

theorem next_mirrors (mirrors : Mirrors done ks ks') {c' : Control} (fits : c'.Fits done) :
    StepMirrors (.next (m.doing c' ks)) (.next (m.doing c' ks')) :=
  .next (.of m mirrors fits)

theorem evalThen_mirrors {k k' : Cont} (mirrors : Mirrors false (k :: ks) (k' :: ks')) (e : Expr) :
    StepMirrors (.next ((m.doing c ks).evalThen e k)) (.next ((m.doing c ks').evalThen e k')) :=
  .next (.of m mirrors trivial)

theorem Mirrors.entered (mirrors : Mirrors true ks ks') (body : List Stmt) :
    Mirrors true (.block body :: ks) (.block (body.flatMap Stmt.expand) :: ks') := by
  have block := Mirrors.block body mirrors.pad
  rw [List.append_nil] at block
  exact block

theorem enter_mirrors (mirrors : Mirrors true ks ks') (body : List Stmt) :
    StepMirrors (.next ((m.doing c ks).enter body)) (.next ((m.doing c ks').enter (body.flatMap Stmt.expand))) :=
  .next (.of m (Mirrors.entered mirrors body) trivial)

variable (mirrors : Mirrors false ks ks')

include mirrors

theorem deliverOr_mirrors (line : Nat) (result : Except Cause Value) :
    StepMirrors ((m.doing c ks).deliverOr line result) ((m.doing c ks').deliverOr line result) := by
  cases result with
  | ok v => exact next_mirrors mirrors trivial
  | error cause => exact fail_mirrors mirrors.ends line cause

theorem perform_mirrors {α : Type} (line : Nat) (action : Action α) {k : α → Machine → Step}
    (same : ∀ a n, StepMirrors (k a (doing n c ks)) (k a (doing n c ks'))) :
    StepMirrors ((m.doing c ks).perform line action k) ((m.doing c ks').perform line action k) := by
  have world : (m.doing c ks).world = m.world ∧ (m.doing c ks').world = m.world := ⟨rfl, rfl⟩
  rw [perform, perform, world.1, world.2]
  cases action.run m.world with
  | ok a w => exact same a { m with world := w }.flush
  | error abort w =>
    cases abort with
    | cause cause => exact fail_mirrors (m := { m with world := w }.flush) mirrors.ends line cause
    | crash => exact .halt (.crashed rfl)

theorem performValue_mirrors (line : Nat) (action : Action Value) :
    StepMirrors ((m.doing c ks).performValue line action) ((m.doing c ks').performValue line action) :=
  perform_mirrors mirrors line action fun _ _ => next_mirrors mirrors trivial

theorem callUser_mirrors (f : FnDef) (args : List Value) (line : Nat) :
    StepMirrors (callUser script (m.doing c ks) f args line)
      (callUser script.expand (m.doing c ks') f.expand args line) := by
  have frames : (m.doing c ks).frames = m.frames ∧ (m.doing c ks').frames = m.frames := ⟨rfl, rfl⟩
  have depth : script.expand.maxCallDepth = script.maxCallDepth := rfl
  rw [callUser, callUser, frames.1, frames.2, depth]
  split
  · exact fail_mirrors mirrors.ends line _
  · let params := Dict.ofEntries (f.params.mapIdx fun i p => (p.name, args.getD i .nil))
    exact enter_mirrors (m := { m with frames := ⟨f.name, params, f.pos⟩ :: m.frames }) (c := c)
      (.border (k := .callEnd) rfl mirrors) f.body

theorem callNamed_mirrors (name : String) (args : List Value) (line : Nat) :
    StepMirrors (callNamed script (m.doing c ks) name args line)
      (callNamed script.expand (m.doing c ks') name args line) := by
  rw [callNamed, callNamed, Script.function?_expand]
  cases script.function? name with
  | some f => exact callUser_mirrors mirrors f args line
  | none =>
    simp only [Option.map_none]
    split
    · apply perform_mirrors mirrors
      intro p n
      exact .halt (.paused rfl fun told v => .of { n with sent := told } mirrors trivial)
    · split
      · exact performValue_mirrors mirrors line _
      · exact fail_mirrors mirrors.ends line _

theorem useGathered_mirrors (goal : Gather) (line : Nat) (values : List Value) :
    StepMirrors (useGathered script (m.doing c ks) goal line values)
      (useGathered script.expand (m.doing c ks') goal line values) := by
  cases goal with
  | call name => exact callNamed_mirrors mirrors name values line
  | method receiver name =>
    rw [useGathered, useGathered]
    split
    · exact performValue_mirrors mirrors line _
    · exact fail_mirrors mirrors.ends line _
  | list => exact performValue_mirrors mirrors line _

theorem gatherNext_mirrors (goal : Gather) (line : Nat) (values : List Value) (todo : List Expr) :
    StepMirrors (gatherNext script (m.doing c ks) goal line values todo)
      (gatherNext script.expand (m.doing c ks') goal line values todo) := by
  cases todo with
  | nil => exact useGathered_mirrors mirrors goal line _
  | cons e todo => exact evalThen_mirrors (.operand rfl mirrors) e

theorem mapNext_mirrors (values : List (String × Value)) (todo : List (String × Expr)) :
    StepMirrors ((m.doing c ks).mapNext values todo) ((m.doing c ks').mapNext values todo) := by
  cases todo with
  | nil => exact performValue_mirrors mirrors 0 _
  | cons entry todo => exact evalThen_mirrors (.operand rfl mirrors) entry.2

theorem evalStep_mirrors (e : Expr) :
    StepMirrors (evalStep script (m.doing c ks) e) (evalStep script.expand (m.doing c ks') e) := by
  cases e with
  | num | bool | str | nil => exact next_mirrors mirrors trivial
  | ident name pos => exact deliverOr_mirrors mirrors pos.line (m.read name)
  | bin op left right pos => cases op <;> exact evalThen_mirrors (.operand rfl mirrors) left
  | un op operand pos => exact evalThen_mirrors (.operand rfl mirrors) operand
  | call name args pos => exact gatherNext_mirrors mirrors _ pos.line [] args
  | method object name args pos => exact evalThen_mirrors (.operand rfl mirrors) object
  | field object name pos => exact evalThen_mirrors (.operand rfl mirrors) object
  | index object key pos => exact evalThen_mirrors (.operand rfl mirrors) object
  | list items pos => exact gatherNext_mirrors mirrors .list pos.line [] items
  | map entries pos => exact mapNext_mirrors mirrors [] entries

/-! ### Assignments -/

theorem beginWrite_mirrors (place : Place) (op : Option BinOp) (value : Expr) (line : Nat) :
    StepMirrors ((m.doing c ks).beginWrite place op value line) ((m.doing c ks').beginWrite place op value line) := by
  cases op with
  | none => exact evalThen_mirrors (.operand rfl mirrors) value
  | some op =>
    have place : (m.doing c ks).readPlace place = m.readPlace place ∧
        (m.doing c ks').readPlace place = m.readPlace place := by
      cases place <;> exact ⟨rfl, rfl⟩
    rw [beginWrite, beginWrite, place.1, place.2]
    split
    · exact evalThen_mirrors (.operand rfl mirrors) value
    · exact fail_mirrors mirrors.ends line _

theorem writePlace_mirrors (place : Place) (v : Value) (line : Nat) :
    StepMirrors ((m.doing c ks).writePlace place v line) ((m.doing c ks').writePlace place v line) := by
  cases place with
  | name name =>
    rw [writePlace, writePlace, doing_assign, doing_assign]
    exact next_mirrors mirrors trivial
  | index | field =>
    rw [writePlace, writePlace]
    apply perform_mirrors mirrors
    intro _ n
    exact .next (.of n mirrors trivial)

/-! ### Loops and branches -/

theorem loopNumber_mirrors (part : LoopPart) (line : Nat) (v : Value) {k k' : Float → Step}
    (same : ∀ x, StepMirrors (k x) (k' x)) :
    StepMirrors ((m.doing c ks).loopNumber part line v k) ((m.doing c ks').loopNumber part line v k') := by
  cases v with
  | num x => exact same x
  | _ => exact fail_mirrors mirrors.ends line _

end Helpers

section Statements

variable {m : Machine} {c : Control} {ks ks' : List Cont} (mirrors : Mirrors true ks ks')

include mirrors

theorem countRound_mirrors (l : Counting) (i stop step : Float) :
    StepMirrors ((m.doing c ks).countRound l i stop step) ((m.doing c ks').countRound l.expand i stop step) := by
  rw [countRound, countRound]
  split
  · have var : l.expand.var = l.var := rfl
    rw [var, doing_assign, doing_assign]
    exact enter_mirrors (m := m.assign l.var (.num i)) (c := c) (.round (k := .countNext l i stop step) rfl mirrors)
      l.body
  · exact next_mirrors mirrors.weaken trivial

theorem countFrom_mirrors (l : Counting) (start stop step : Float) :
    StepMirrors ((m.doing c ks).countFrom l start stop step) ((m.doing c ks').countFrom l.expand start stop step) := by
  rw [countFrom, countFrom]
  split
  · exact fail_mirrors mirrors.ends l.line _
  · exact countRound_mirrors mirrors l start stop step

theorem clausesBody_mirrors (l : Clauses) :
    StepMirrors ((m.doing c ks).clausesBody l) ((m.doing c ks').clausesBody l.expand) :=
  enter_mirrors (m := m) (c := c) (.round (k := .clausesStep l) rfl mirrors) l.body

theorem clausesRound_mirrors (l : Clauses) :
    StepMirrors ((m.doing c ks).clausesRound l) ((m.doing c ks').clausesRound l.expand) := by
  obtain ⟨test, step, body⟩ := l
  cases test with
  | none => exact clausesBody_mirrors mirrors _
  | some test => exact evalThen_mirrors (.head (k := .clausesTest ⟨some test, step, body⟩) rfl mirrors) test

/-- The head of a loop whose expansion is about to test the same. -/
theorem clausesRound_meets {l : Clauses} (plain : l.step.all Stmt.isPlain = true) {n n' : Machine}
    (one : n.step script = (m.doing c ks).clausesRound l)
    (two : n'.step script.expand = .next (m.doing (.eval l.loopTest) (.whileTest l.loopTest l.loopBody :: ks'))) :
    Meets script n n' := by
  obtain ⟨test, step, body⟩ := l
  cases test with
  | some test => exact .steps one two (.of m (.test plain mirrors) trivial)
  | none =>
    -- Without a test the expansion tests what always holds.
    let l : Clauses := ⟨none, step, body⟩
    have tested : (m.doing (.eval l.loopTest) (.whileTest l.loopTest l.loopBody :: ks')).step script.expand =
        .next (m.doing (.deliver (.bool true)) (.whileTest l.loopTest l.loopBody :: ks')) := rfl
    apply Meet.right two
    apply Meet.right tested
    exact .steps one rfl (.of m (.block body (.body plain mirrors)) trivial)

omit mirrors in
theorem nest_expand (first : Expr × List Stmt) (rest : List (Expr × List Stmt)) (otherwise : Option (List Stmt)) :
    Stmt.nest ((first :: rest).map Stmt.expandBranch) (otherwise.map (List.flatMap Stmt.expand)) .nowhere =
      .branch [Stmt.expandBranch first] (expandRest rest otherwise) .nowhere := by
  rw [List.map_cons, Stmt.nest, List.isEmpty_map]
  rfl

theorem branchNext_mirrors (first : Expr × List Stmt) (rest : List (Expr × List Stmt))
    (otherwise : Option (List Stmt)) :
    StepMirrors ((m.doing c ks).branchNext otherwise (first :: rest))
      ((m.doing c ks').branchNext (expandRest rest otherwise) [Stmt.expandBranch first]) :=
  evalThen_mirrors (.head (k := .branch first.2 rest otherwise) rfl mirrors) first.1

end Statements

/-! ### Statements -/

section Beginnings

variable {m : Machine} {c : Control} {ks ks' : List Cont} (still : m.moveTo .nowhere = m)

include still

theorem doing_still : (m.doing c ks).moveTo .nowhere = m.doing c ks := by
  rw [doing_moveTo, still]

variable {s : Stmt} {op : BinOp} {more : List Stmt}

/-- A statement that stands nowhere begins without a move. -/
theorem step_exec (place : s.pos = .nowhere) :
    (m.doing (.exec s) ks).step script = (m.doing (.exec s) ks).beginStmt s := by
  change (m.doing (.exec s) ks).execStep s = _
  rw [execStep, place, doing_still still]

theorem Meet.of_exec {s' : Stmt} (place : s.pos = .nowhere) (place' : s'.pos = .nowhere)
    (mirrors : StepMirrors ((m.doing (.exec s) ks).beginStmt s) ((m.doing (.exec s') ks').beginStmt s')) :
    Meets script (m.doing (.exec s) ks) (m.doing (.exec s') ks') := by
  apply Meet.of_steps
  rw [step_exec still place, step_exec still place']
  exact mirrors

theorem step_whileDo (test : Expr) (body : List Stmt) :
    (m.doing (.exec (.whileDo test body .nowhere)) ks).step script =
      .next (m.doing (.eval test) (.whileTest test body :: ks)) :=
  step_exec still rfl

theorem step_opened (script : Script) (init : Stmt) (l : Clauses) :
    (m.doing (.exec (.clauses (some init) l.test l.step l.body .nowhere)) ks).step script =
      .next (m.doing (.exec init) (.clausesStart l :: ks)) :=
  step_exec still rfl

/-- The rest of a chain, which the expansion does as a statement of its own. -/
theorem branchNext_meets (mirrors : Mirrors true ks ks') {rest : List (Expr × List Stmt)}
    {otherwise : Option (List Stmt)} {n n' : Machine} (one : n.step script = (m.doing c ks).branchNext otherwise rest)
    (two : n'.step script.expand = (m.doing c ks').branchNext (expandRest rest otherwise) []) :
    Meets script n n' := by
  cases rest with
  | nil =>
    apply Meet.of_steps
    rw [one, two]
    cases otherwise with
    | none => exact next_mirrors mirrors.weaken trivial
    | some body => exact enter_mirrors mirrors body
  | cons first rest =>
    rw [expandRest, if_neg (by simp), nest_expand] at two
    let s := Stmt.branch [Stmt.expandBranch first] (expandRest rest otherwise) .nowhere
    have entered : (m.doing .proceed (.block [s] :: ks')).step script.expand =
        .next (m.doing (.exec s) (.block [] :: ks')) := rfl
    apply Meet.right two
    apply Meet.right entered
    apply Meet.of_steps
    rw [one, step_exec still rfl]
    exact branchNext_mirrors mirrors.pad first rest otherwise

omit still in
theorem evalStep_bin (plain : op.isConnective = false) (left right : Expr) (pos : Pos) :
    evalStep script m (.bin op left right pos) = .next (m.evalThen left (.rightOperand op right pos.line)) := by
  cases op with
  | and | or => cases plain
  | _ => rfl

omit still in
theorem beginWrite_of_ok (place : Place) {old : Value} (read : m.readPlace place = .ok old) (op : BinOp) (value : Expr)
    (line : Nat) :
    (m.doing c ks).beginWrite place (some op) value line =
      .next (m.doing (.eval value) (.write place (some (op, old)) line :: ks)) := by
  have same : (m.doing c ks).readPlace place = .ok old := by
    cases place <;> exact read
  rw [beginWrite, same]
  rfl

omit still in
theorem beginWrite_of_error (place : Place) {cause : Cause} (read : m.readPlace place = .error cause) (op : BinOp)
    (value : Expr) (line : Nat) :
    (m.doing c ks).beginWrite place (some op) value line = (m.doing c ks).fail line cause := by
  have same : (m.doing c ks).readPlace place = .error cause := by
    cases place <;> exact read
  rw [beginWrite, same]

/-- An assignment with an operator reads the old value first, as its expansion does. -/
theorem executes_combine {name : String} {value : Expr} (plain : op.isConnective = false)
    (mirrors : Mirrors false ks ks') :
    Meets script (m.doing (.exec (.assign (.name name) (some op) value .nowhere)) ks)
      (m.doing (.exec (.assign (.name name) none (.bin op (.ident name .nowhere) value .nowhere) .nowhere)) ks') := by
  have written : (m.doing (.exec (.assign (.name name) (some op) value .nowhere)) ks).step script =
      (m.doing (.exec (.assign (.name name) (some op) value .nowhere)) ks).beginWrite (.name name) (some op) value 0 :=
    step_exec still rfl
  have begun : (m.doing (.exec (.assign (.name name) none (.bin op (.ident name .nowhere) value .nowhere) .nowhere))
      ks').step script.expand =
        .next (m.doing (.eval (.bin op (.ident name .nowhere) value .nowhere)) (.write (.name name) none 0 :: ks')) :=
    step_exec still rfl
  have combined : (m.doing (.eval (.bin op (.ident name .nowhere) value .nowhere))
      (.write (.name name) none 0 :: ks')).step script.expand =
        .next (m.doing (.eval (.ident name .nowhere))
          (.rightOperand op value 0 :: .write (.name name) none 0 :: ks')) :=
    evalStep_bin plain (.ident name .nowhere) value .nowhere
  have looked : (m.doing (.eval (.ident name .nowhere))
      (.rightOperand op value 0 :: .write (.name name) none 0 :: ks')).step script.expand =
        (m.doing (.eval (.ident name .nowhere))
          (.rightOperand op value 0 :: .write (.name name) none 0 :: ks')).deliverOr 0 (m.read name) := rfl
  apply Meet.right begun
  apply Meet.right combined
  cases read : m.read name with
  | error cause =>
    rw [beginWrite_of_error (.name name) read] at written
    rw [read] at looked
    apply Meet.of_steps
    rw [written, looked]
    exact fail_mirrors (by simpa [Cont.isCallEnd] using mirrors.ends) 0 cause
  | ok old =>
    rw [beginWrite_of_ok (.name name) read] at written
    rw [read] at looked
    apply Meet.right looked
    exact .steps written rfl (.of m (.combine name op old 0 mirrors) trivial)

/-- A plain statement does the same as its expansion. -/
theorem executes_plain (plain : s.isPlain = true) (place : s.pos = .nowhere) (mirrors : Mirrors false ks ks') :
    Meets script (m.doing (.exec s) ks) (m.doing (.exec s.plain) ks') := by
  cases s with
  | declare name init pos =>
    obtain rfl : pos = .nowhere := place
    cases init with
    | none =>
      have declared (c : Control) (ks : List Cont) : (m.doing c ks).beginStmt (.declare name none .nowhere) =
          .next ((if m.isDefined name then m else m.assign name .nil).doing .proceed ks) := by
        rw [beginStmt, doing_assign]
        change Step.next ((if m.isDefined name then _ else _ : Machine).goto .proceed) = _
        split <;> rfl
      apply Meet.of_exec still rfl rfl
      change StepMirrors _ (beginStmt _ (.declare name none .nowhere))
      rw [declared, declared]
      exact next_mirrors mirrors trivial
    | some init => exact .of_exec still rfl rfl (evalThen_mirrors (.operand rfl mirrors) init)
  | assign target op value pos =>
    obtain rfl : pos = .nowhere := place
    cases target with
    | index object | field object =>
      exact .of_exec still rfl rfl (evalThen_mirrors (.operand rfl mirrors) object)
    | name name =>
      have same (op : Option BinOp) : Meets script
          (m.doing (.exec (.assign (.name name) op value .nowhere)) ks)
          (m.doing (.exec (.assign (.name name) op value .nowhere)) ks') :=
        .of_exec still rfl rfl (beginWrite_mirrors mirrors (.name name) op value 0)
      cases op with
      | none => exact same none
      | some op =>
        rw [Stmt.plain]
        split
        case isTrue => exact same (some op)
        case isFalse plain => exact executes_combine still (Bool.eq_false_iff.mpr plain) mirrors
  | eval e =>
    exact .of_exec still place place (next_mirrors mirrors trivial)
  | branch | count | clauses | whileDo | ret => cases plain

omit still in
/-- Only for a loop with a plain first clause an expansion begins with something else. -/
theorem lead_cases (s : Stmt) : s.lead = [] ∨ ∃ init test step body, s = .clauses (some init) test step body s.pos ∧
    init.isPlain = true ∧ step.all Stmt.isPlain = true := by
  cases s with
  | clauses init test step body pos =>
    cases init with
    | none => exact .inl rfl
    | some init =>
      cases plain : init.isPlain && step.all Stmt.isPlain with
      | false => exact .inl (by simp [Stmt.lead, plain])
      | true =>
        obtain ⟨ofInit, ofStep⟩ := Bool.and_eq_true_iff.mp plain
        exact .inr ⟨init, test, step, body, rfl, ofInit, ofStep⟩
  | _ => exact .inl rfl

/-- A loop whose expansion begins with its first clause. -/
theorem executes_lead {init : Stmt} {test : Option Expr} {step : Option Stmt} {body : List Stmt}
    (ofInit : init.isPlain = true) (ofStep : step.all Stmt.isPlain = true)
    (place : (Stmt.clauses (some init) test step body .nowhere).Nowhere)
    (mirrors : Mirrors true ks (.block more :: ks')) :
    Meets script (m.doing (.exec (.clauses (some init) test step body .nowhere)) ks)
      (m.doing .proceed (.block ((Stmt.clauses (some init) test step body .nowhere).expand ++ more) :: ks')) := by
  let l : Clauses := ⟨test, step, body⟩
  have expansion : (Stmt.clauses (some init) test step body .nowhere).expand =
      [init.plain, .whileDo l.loopTest l.loopBody .nowhere] := by
    simp [Stmt.expand, Stmt.lead, Stmt.main, ofInit, ofStep, Clauses.loopTest, Clauses.loopBody, l]
  have entered : (m.doing .proceed (.block (init.plain :: .whileDo l.loopTest l.loopBody .nowhere :: more) ::
      ks')).step script.expand =
        .next (m.doing (.exec init.plain) (.block (.whileDo l.loopTest l.loopBody .nowhere :: more) :: ks')) := rfl
  rw [expansion]
  apply Meet.left (step_opened still script init l)
  apply Meet.right entered
  exact executes_plain still ofInit place.init.pos (.first ofStep mirrors)

/-- Where there is room for one statement only. -/
theorem executes_one (place : s.Nowhere) (alone : s.lead = [] → ∀ {ks ks' : List Cont}, Mirrors true ks ks' →
      Meets script (m.doing (.exec s) ks) (m.doing (.exec s.main) ks'))
    (mirrors : Mirrors true ks ks') :
    Meets script (m.doing (.exec s) ks) (m.doing (.exec s.expandOne) ks') := by
  rcases lead_cases s with lead | ⟨init, test, step, body, same, ofInit, ofStep⟩
  · have one : s.expandOne = s.main := by
      rw [Stmt.expandOne, lead]
      rfl
    rw [one]
    exact alone lead mirrors
  · rw [place.pos] at same
    have one : s.expandOne = .branch [(.bool true .nowhere, s.expand)] none .nowhere := by
      rw [Stmt.expandOne, place.pos, same]
      simp [Stmt.fuse, Stmt.expand, Stmt.lead, ofInit, ofStep]
    have begun : (m.doing (.exec s.expandOne) ks').step script.expand =
        .next (m.doing (.eval (.bool true .nowhere)) (.branch s.expand [] none :: ks')) := by
      rw [one]
      exact step_exec still rfl
    have tested : (m.doing (.eval (.bool true .nowhere)) (.branch s.expand [] none :: ks')).step script.expand =
        .next (m.doing (.deliver (.bool true)) (.branch s.expand [] none :: ks')) := rfl
    have entered : (m.doing (.deliver (.bool true)) (.branch s.expand [] none :: ks')).step script.expand =
        .next (m.doing .proceed (.block s.expand :: ks')) := rfl
    apply Meet.right begun
    apply Meet.right tested
    apply Meet.right entered
    have led : Meets script _ _ := executes_lead still ofInit ofStep (same ▸ place) mirrors.pad
    rw [← same, List.append_nil] at led
    exact led

section Loops

variable {test : Option Expr} {step : Option Stmt} {body : List Stmt}

/-- A loop without a first clause. -/
theorem executes_unopened (mirrors : Mirrors true ks ks') :
    Meets script (m.doing (.exec (.clauses none test step body .nowhere)) ks)
      (m.doing (.exec (Stmt.clauses none test step body .nowhere).main) ks') := by
  let l : Clauses := ⟨test, step, body⟩
  cases plain : step.all Stmt.isPlain with
  | true =>
    have main : (Stmt.clauses none test step body .nowhere).main = .whileDo l.loopTest l.loopBody .nowhere := by
      simp [Stmt.main, plain, Clauses.loopTest, Clauses.loopBody, l]
    have begun : (m.doing (.exec (.clauses none test step body .nowhere)) ks).step script =
        (m.doing (.exec (.clauses none test step body .nowhere)) ks).clausesRound l :=
      step_exec still rfl
    rw [main]
    exact clausesRound_meets mirrors plain begun (step_whileDo still l.loopTest l.loopBody)
  | false =>
    have main : (Stmt.clauses none test step body .nowhere).main =
        .clauses none test l.expand.step l.expand.body .nowhere := by
      simp [Stmt.main, plain, Clauses.expand, l]
    rw [main]
    exact .of_exec still rfl rfl (clausesRound_mirrors mirrors l)

/-- A loop with a first clause that stays in its place. -/
theorem executes_opened {init : Stmt} (place : (Stmt.clauses (some init) test step body .nowhere).Nowhere)
    (lead : (Stmt.clauses (some init) test step body .nowhere).lead = [])
    (alone : init.lead = [] → ∀ {ks ks' : List Cont}, Mirrors true ks ks' →
      Meets script (m.doing (.exec init) ks) (m.doing (.exec init.main) ks'))
    (mirrors : Mirrors true ks ks') :
    Meets script (m.doing (.exec (.clauses (some init) test step body .nowhere)) ks)
      (m.doing (.exec (Stmt.clauses (some init) test step body .nowhere).main) ks') := by
  let l : Clauses := ⟨test, step, body⟩
  have main : (Stmt.clauses (some init) test step body .nowhere).main =
      .clauses (some init.expandOne) test l.expand.step l.expand.body .nowhere := by
    cases plain : init.isPlain && step.all Stmt.isPlain with
    | true => simp [Stmt.lead, plain] at lead
    | false => simp [Stmt.main, plain, Clauses.expand, l]
  rw [main]
  apply Meet.left (step_opened still script init l)
  apply Meet.right (step_opened still script.expand init.expandOne l.expand)
  exact executes_one still place.init alone (.round (k := .clausesStart l) rfl mirrors)

end Loops

/-- A statement whose expansion is one statement. -/
theorem executes (place : s.Nowhere) (lead : s.lead = []) (mirrors : Mirrors true ks ks') :
    Meets script (m.doing (.exec s) ks) (m.doing (.exec s.main) ks') := by
  induction s using Stmt.inductionOn generalizing ks ks' with
  | declare | assign | eval => exact executes_plain still rfl place.pos mirrors.weaken
  | branch branches otherwise pos =>
    obtain rfl : pos = .nowhere := place.pos
    rw [Stmt.main, Stmt.expandBranches_eq_map, Stmt.expandOtherwise_eq_map]
    cases branches with
    | nil =>
      apply Meet.of_exec still rfl rfl
      cases otherwise with
      | none => exact next_mirrors mirrors.weaken trivial
      | some body => exact enter_mirrors mirrors body
    | cons first rest =>
      rw [nest_expand]
      exact .of_exec still rfl rfl (branchNext_mirrors mirrors first rest otherwise)
  | count var start stop step body pos =>
    obtain rfl : pos = .nowhere := place.pos
    rw [Stmt.main, Stmt.expandBlock_eq_flatMap]
    apply Meet.of_exec still rfl rfl
    exact evalThen_mirrors (.head (k := .countStart ⟨var, body, 0⟩ start.pos.line stop step) rfl mirrors) start
  | clauses init test step body pos ofInit =>
    obtain rfl : pos = .nowhere := place.pos
    cases init with
    | none => exact executes_unopened still mirrors
    | some init =>
      exact executes_opened still place lead (fun alone _ _ mirrors => ofInit init rfl place.init alone mirrors) mirrors
  | whileDo test body pos =>
    obtain rfl : pos = .nowhere := place.pos
    rw [Stmt.main, Stmt.expandBlock_eq_flatMap]
    exact .steps (step_whileDo still test body) (step_whileDo still test _)
      (.of m (.head (k := .whileTest test body) rfl mirrors) trivial)
  | ret value pos =>
    obtain rfl : pos = .nowhere := place.pos
    cases value with
    | none => exact .of_exec still rfl rfl (next_mirrors mirrors rfl)
    | some value =>
      exact .of_exec still rfl rfl (evalThen_mirrors (.head (k := .giveBack) rfl mirrors) value)

/-- A statement of a block, whose expansion stands at the head of another block. -/
theorem executes_block (place : s.Nowhere) (mirrors : Mirrors true ks (.block more :: ks')) :
    Meets script (m.doing (.exec s) ks) (m.doing .proceed (.block (s.expand ++ more) :: ks')) := by
  rcases lead_cases s with lead | ⟨init, test, step, body, same, ofInit, ofStep⟩
  · have entered : (m.doing .proceed (.block (s.main :: more) :: ks')).step script.expand =
        .next (m.doing (.exec s.main) (.block more :: ks')) := rfl
    rw [Stmt.expand, lead]
    apply Meet.right entered
    exact executes still place lead mirrors
  · rw [place.pos] at same
    rw [same] at place ⊢
    exact executes_lead still ofInit ofStep place mirrors

end Beginnings

/-! ### Continuations -/

section Conts

variable {m : Machine} {done : Bool} {ks ks' : List Cont} (still : m.moveTo .nowhere = m)

include still

variable {k : Cont}

omit still in
/-- A finished statement counts as nil where a value is awaited. -/
theorem step_proceed_of_awaits (kind : k.awaitsOperand = true ∨ k.awaitsHead = true) :
    (m.doing .proceed (k :: ks)).step script = .next (m.doing (.deliver .nil) (k :: ks)) := by
  cases k with
  | block | countNext | whileNext | clausesStart | clausesStep | callEnd | entry =>
    rcases kind with kind | kind <;> cases kind
  | _ => rfl

/-- Another round begins alike. -/
theorem proceeds_round (kind : k.awaitsRound = true) (place : k.Nowhere) (rest : Mirrors true ks ks') :
    Meets script (m.doing .proceed (k :: ks)) (m.doing .proceed (k.expand :: ks')) := by
  cases k with
  | countNext l i stop step => exact .of_steps (countRound_mirrors rest l _ stop step)
  | whileNext test body => exact .of_steps (evalThen_mirrors (.head (k := .whileTest test body) rfl rest) test)
  | clausesStart l => exact .of_steps (clausesRound_mirrors rest l)
  | clausesStep l =>
    obtain ⟨test, step, body⟩ := l
    cases step with
    | none => exact .of_steps (clausesRound_mirrors rest ⟨test, none, body⟩)
    | some step =>
      let l : Clauses := ⟨test, some step, body⟩
      have begun : (m.doing .proceed (.clausesStep l :: ks)).step script =
          .next (m.doing (.exec step) (.clausesStart l :: ks)) := rfl
      have begun' : (m.doing .proceed (.clausesStep l.expand :: ks')).step script.expand =
          .next (m.doing (.exec step.expandOne) (.clausesStart l.expand :: ks')) := rfl
      have ofStep := place.step rfl
      apply Meet.left begun
      apply Meet.right begun'
      exact executes_one still ofStep (fun lead _ _ mirrors => executes still ofStep lead mirrors)
        (.round (k := .clausesStart l) rfl rest)
  | _ => cases kind

omit still in
theorem proceeds_border (kind : k.isBorder = true) (rest : Mirrors false ks ks') :
    Meets script (m.doing .proceed (k :: ks)) (m.doing .proceed (k :: ks')) := by
  apply Meet.of_steps
  cases k with
  | callEnd => exact next_mirrors (m := { m with frames := m.frames.tail }) rest trivial
  | entry name =>
    change StepMirrors (proceedStep script (m.doing .proceed ks) (.entry name))
      (proceedStep script.expand (m.doing .proceed ks') (.entry name))
    rw [proceedStep, proceedStep, Script.function?_expand]
    cases script.function? name with
    | none => exact next_mirrors rest trivial
    | some f => exact callUser_mirrors rest f [] f.pos.line
  | _ => cases kind

/-- A statement is done. -/
theorem proceeds (mirrors : Mirrors done ks ks') (places : ∀ k ∈ ks, k.Nowhere) :
    Meets script (m.doing .proceed ks) (m.doing .proceed ks') := by
  induction mirrors with
  | nil => exact .halts (.finished rfl)
  | weaken _ ih => exact ih places
  | operand kind rest =>
    exact .steps (step_proceed_of_awaits (.inl kind)) (step_proceed_of_awaits (.inl kind))
      (.of m (.operand kind rest) trivial)
  | head kind rest =>
    exact .steps (step_proceed_of_awaits (.inr kind))
      (step_proceed_of_awaits (.inr ((Cont.awaitsHead_expand _).trans kind))) (.of m (.head kind rest) trivial)
  | round kind rest => exact proceeds_round still kind (places _ List.mem_cons_self) rest
  | border kind rest => exact proceeds_border kind rest
  | pad _ ih => exact .right rfl (ih places)
  | @block ks ks' body more rest ih =>
    obtain ⟨place, below⟩ := List.forall_mem_cons.mp places
    cases body with
    | nil => exact .left rfl (ih below)
    | cons s body =>
      rw [List.flatMap_cons, List.append_assoc]
      exact .left rfl (executes_block still place.stmt.1 (.block body rest))
  | first plain rest => exact .right rfl (clausesRound_meets rest plain rfl (step_whileDo still _ _))
  | last plain rest => exact .right rfl (clausesRound_meets rest plain rfl rfl)
  | test plain rest => exact .steps rfl rfl (.of m (.test plain rest) trivial)
  | @body ks ks' l plain rest =>
    obtain ⟨test, step, body⟩ := l
    cases step with
    | none => exact .right rfl (clausesRound_meets rest plain rfl rfl)
    | some step =>
      have place := (places _ List.mem_cons_self).step rfl
      exact .left rfl (.right rfl (executes_plain still plain place.pos (.last plain rest)))
  | combine name op old line rest => exact .steps rfl rfl (.of m (.combine name op old line rest) trivial)

omit still in
/-- Where a statement may come, a value is dropped. -/
theorem step_deliver_of_done (mirrors : Mirrors true ks ks') (v : Value) :
    (m.doing (.deliver v) ks).step script = .next (m.doing .proceed ks) ∧
      (m.doing (.deliver v) ks').step script.expand = .next (m.doing .proceed ks') := by
  generalize isDone : true = done at mirrors
  induction mirrors with
  | nil | weaken | operand | head | first | last | test | combine => cases isDone
  | @round k ks ks' kind rest =>
    cases k with
    | countNext | whileNext | clausesStart | clausesStep => exact ⟨rfl, rfl⟩
    | _ => cases kind
  | @border k ks ks' kind rest =>
    cases k with
    | callEnd | entry => exact ⟨rfl, rfl⟩
    | _ => cases kind
  | pad _ ih => exact ⟨(ih isDone).1, rfl⟩
  | block | body => exact ⟨rfl, rfl⟩

omit still in
/-- A value for an expression has the same effect in the expansion. -/
theorem delivers_operand (kind : k.awaitsOperand = true) (rest : Mirrors false ks ks') (v : Value) :
    Meets script (m.doing (.deliver v) (k :: ks)) (m.doing (.deliver v) (k :: ks')) := by
  apply Meet.of_steps
  cases k with
  | connective decisive right =>
    change StepMirrors (if v.truthy = decisive then _ else _) (if v.truthy = decisive then _ else _)
    split <;> exact next_mirrors rest trivial
  | rightOperand op right line => exact evalThen_mirrors (.operand rfl rest) right
  | applyBin op left line => exact deliverOr_mirrors rest line (op.apply m.world.heap left v)
  | applyUn op line => exact deliverOr_mirrors rest line (op.apply v)
  | gather goal line values todo => exact gatherNext_mirrors rest goal line (v :: values) todo
  | methodArgs name args line => exact gatherNext_mirrors rest (.method v name) line [] args
  | readField name line => exact deliverOr_mirrors rest line (m.world.heap.field v name)
  | indexKey key line => exact evalThen_mirrors (.operand rfl rest) key
  | readIndex object line => exact deliverOr_mirrors rest line (m.world.heap.item object v)
  | mapEntry key values todo => exact mapNext_mirrors rest ((key, v) :: values) todo
  | assignKey key op value line => exact evalThen_mirrors (.operand rfl rest) key
  | assignIndex object op value line => exact beginWrite_mirrors rest (.index object v) op value line
  | assignField name op value line => exact beginWrite_mirrors rest (.field v name) op value line
  | write place combine line =>
    cases combine with
    | none => exact writePlace_mirrors rest place v line
    | some combine =>
      obtain ⟨op, old⟩ := combine
      change StepMirrors (deliverStep script (m.doing (.deliver v) ks) v (.write place (some (op, old)) line))
        (deliverStep script.expand (m.doing (.deliver v) ks') v (.write place (some (op, old)) line))
      have heap (ks : List Cont) : (m.doing (.deliver v) ks).world = m.world := rfl
      rw [deliverStep, deliverStep, heap, heap]
      split
      · exact writePlace_mirrors rest place _ line
      · exact fail_mirrors rest.ends line _
  | _ => cases kind

/-- A value for a statement has the same effect in the expansion. -/
theorem delivers_head (kind : k.awaitsHead = true) (rest : Mirrors true ks ks') (v : Value) :
    Meets script (m.doing (.deliver v) (k :: ks)) (m.doing (.deliver v) (k.expand :: ks')) := by
  cases k with
  | branch body branches otherwise =>
    have one : (m.doing (.deliver v) (.branch body branches otherwise :: ks)).step script =
        if v.truthy then .next ((m.doing (.deliver v) ks).enter body)
        else (m.doing (.deliver v) ks).branchNext otherwise branches := rfl
    have two : (m.doing (.deliver v) ((Cont.branch body branches otherwise).expand :: ks')).step script.expand =
        if v.truthy then .next ((m.doing (.deliver v) ks').enter (body.flatMap Stmt.expand))
        else (m.doing (.deliver v) ks').branchNext (expandRest branches otherwise) [] := rfl
    cases holds : v.truthy with
    | true =>
      rw [holds] at one two
      exact .steps one two (.of m (Mirrors.entered rest body) trivial)
    | false =>
      rw [holds] at one two
      exact branchNext_meets still rest one two
  | countStart l line stop step =>
    apply Meet.of_steps
    apply loopNumber_mirrors rest.weaken
    intro start
    exact evalThen_mirrors (.head (k := .countStop l start stop.pos.line step) rfl rest) stop
  | countStop l start line step =>
    apply Meet.of_steps
    apply loopNumber_mirrors rest.weaken
    intro stop
    cases step with
    | none => exact countFrom_mirrors rest l start stop 1.0
    | some step => exact evalThen_mirrors (.head (k := .countStep l start stop step.pos.line) rfl rest) step
  | countStep l start stop line =>
    apply Meet.of_steps
    apply loopNumber_mirrors rest.weaken
    intro step
    exact countFrom_mirrors rest l start stop step
  | whileTest test body =>
    apply Meet.of_steps
    change StepMirrors (if v.truthy then _ else _) (if v.truthy then _ else _)
    split
    · exact enter_mirrors (m := m) (c := .deliver v) (.round (k := .whileNext test body) rfl rest) body
    · exact next_mirrors rest.weaken trivial
  | clausesTest l =>
    apply Meet.of_steps
    change StepMirrors (if v.truthy then _ else _) (if v.truthy then _ else _)
    split
    · exact clausesBody_mirrors rest l
    · exact next_mirrors rest.weaken trivial
  | giveBack => exact .steps rfl rfl (.of m rest rfl)
  | _ => cases kind

omit still in
/-- The test of a loop, which is the same in its expansion. -/
theorem delivers_test {l : Clauses} (plain : l.step.all Stmt.isPlain = true) (rest : Mirrors true ks ks') (v : Value) :
    Meets script (m.doing (.deliver v) (.clausesTest l :: ks))
      (m.doing (.deliver v) (.whileTest l.loopTest l.loopBody :: ks')) := by
  apply Meet.of_steps
  change StepMirrors (if v.truthy then _ else _) (if v.truthy then _ else _)
  split
  · exact .next (.of m (.block l.body (.body plain rest)) trivial)
  · exact next_mirrors rest.weaken trivial

omit still in
/-- The expansion combines the new value with the old one first. -/
theorem delivers_combine (name : String) (op : BinOp) (old : Value) (line : Nat) (rest : Mirrors false ks ks')
    (v : Value) :
    Meets script (m.doing (.deliver v) (.write (.name name) (some (op, old)) line :: ks))
      (m.doing (.deliver v) (.applyBin op old line :: .write (.name name) none line :: ks')) := by
  have one : (m.doing (.deliver v) (.write (.name name) (some (op, old)) line :: ks)).step script =
      deliverStep script (m.doing (.deliver v) ks) v (.write (.name name) (some (op, old)) line) := rfl
  have two : (m.doing (.deliver v) (.applyBin op old line :: .write (.name name) none line :: ks')).step script.expand =
      (m.doing (.deliver v) (.write (.name name) none line :: ks')).deliverOr line (op.apply m.world.heap old v) := rfl
  have world : (m.doing (.deliver v) ks).world = m.world := rfl
  rw [deliverStep, world] at one
  cases applied : op.apply m.world.heap old v with
  | error cause =>
    rw [applied] at one two
    apply Meet.of_steps
    rw [one, two]
    exact fail_mirrors (by simpa [Cont.isCallEnd] using rest.ends) line cause
  | ok combined =>
    have written (c : Control) (ks : List Cont) : (m.doing c ks).writePlace (.name name) combined line =
        .next ((m.assign name combined).doing .proceed ks) := by
      rw [writePlace, doing_assign]
      rfl
    rw [applied] at one two
    exact .right two (.steps (one.trans (written _ _)) (written _ _) (.of (m.assign name combined) rest trivial))

/-- A value is delivered. -/
theorem delivers (mirrors : Mirrors done ks ks') (places : ∀ k ∈ ks, k.Nowhere) (v : Value) :
    Meets script (m.doing (.deliver v) ks) (m.doing (.deliver v) ks') := by
  have dropped {done : Bool} {ks ks' : List Cont} (mirrors : Mirrors done ks ks') (places : ∀ k ∈ ks, k.Nowhere)
      (drops : (m.doing (.deliver v) ks).step script = .next (m.doing .proceed ks) ∧
        (m.doing (.deliver v) ks').step script.expand = .next (m.doing .proceed ks')) :
      Meets script (m.doing (.deliver v) ks) (m.doing (.deliver v) ks') :=
    .left drops.1 (.right drops.2 (proceeds still mirrors places))
  cases done with
  | true => exact dropped mirrors places (step_deliver_of_done mirrors v)
  | false =>
    cases mirrors with
    | nil => exact .halts (.finished rfl)
    | weaken rest => exact dropped rest places (step_deliver_of_done rest v)
    | operand kind rest => exact delivers_operand kind rest v
    | head kind rest => exact delivers_head still kind rest v
    | first plain rest => exact dropped (.first plain rest) places ⟨rfl, rfl⟩
    | last plain rest => exact dropped (.last plain rest) places ⟨rfl, rfl⟩
    | test plain rest => exact delivers_test plain rest v
    | combine name op old line rest => exact delivers_combine name op old line rest v

omit still in
/-- A call returns. -/
theorem unwinds (mirrors : Mirrors true ks ks') (v : Value) :
    Meets script (m.doing (.unwind v) ks) (m.doing (.unwind v) ks') := by
  generalize isDone : true = done at mirrors
  induction mirrors with
  | nil | weaken | operand | head | first | last | test | combine => cases isDone
  | @round k ks ks' kind rest =>
    cases k with
    | countNext | whileNext | clausesStep => exact .steps rfl rfl (.of m rest rfl)
    | clausesStart l => exact .of_steps (clausesRound_mirrors rest l)
    | _ => cases kind
  | @border k ks ks' kind rest =>
    cases k with
    | callEnd => exact .steps rfl rfl (.of { m with frames := m.frames.tail } rest trivial)
    | entry name => exact .steps rfl rfl (.of m (.border (k := .entry name) rfl rest) trivial)
    | _ => cases kind
  | pad _ ih => exact .right rfl (ih isDone)
  | @block ks ks' body more _ ih =>
    have popped : (m.doing (.unwind v) (.block body :: ks)).step script = .next (m.doing (.unwind v) ks) := rfl
    have same : (m.doing (.unwind v) (.block more :: ks')).step script.expand =
        (m.doing (.unwind v) (.block (body.flatMap Stmt.expand ++ more) :: ks')).step script.expand := rfl
    exact .left popped (.congr_right same (ih isDone))
  | body plain rest => exact .right rfl (.steps rfl rfl (.of m rest rfl))

end Conts

/-! ### Runs -/

def Nowhere (m : Machine) : Prop := ∃ n : Machine, m = n.under .nowhere

/-- A program and its expansion meet again after every step. -/
theorem Mirror.meets (mirror : Mirror m m') (place : m.Nowhere) : Meets script m m' := by
  obtain ⟨m, mirrors, fits⟩ := mirror
  rename_i c done ks ks'
  obtain ⟨n, same⟩ := place
  have places : ∀ k ∈ ks, k.Nowhere := by
    have conts : ks = n.conts.map (Cont.under .nowhere) := congrArg Machine.conts same
    rw [conts]
    exact List.forall_mem_map.mpr fun k _ => ⟨k, rfl⟩
  have still : m.moveTo .nowhere = m := by
    have frames : m.frames = n.frames.map (CallFrame.under .nowhere) := congrArg Machine.frames same
    obtain ⟨control, conts, _, globals, world, sent⟩ := m
    cases frames
    cases n.frames <;> rfl
  cases c with
  | eval e =>
    have weak : Mirrors false ks ks' := by
      cases done with
      | true => exact mirrors.weaken
      | false => exact mirrors
    exact .of_steps (evalStep_mirrors weak e)
  | exec s => exact fits.elim
  | deliver v => exact delivers still mirrors places v
  | proceed => exact proceeds still mirrors places
  | unwind v =>
    cases fits
    exact unwinds mirrors v

theorem Nowhere.run (place : m.Nowhere) (fuel : Nat) :
    ∃ h : Step, m.run (script.under .nowhere) fuel = h.under .nowhere := by
  obtain ⟨n, rfl⟩ := place
  exact ⟨n.run script fuel, (under_run .nowhere script n fuel).symm⟩

theorem Nowhere.next (place : m.Nowhere) (ran : m.run (script.under .nowhere) fuel = .next n) : n.Nowhere := by
  obtain ⟨h, same⟩ : ∃ h : Step, m.run (script.under .nowhere) fuel = h.under .nowhere := place.run fuel
  rw [ran] at same
  cases h <;> cases same
  exact ⟨_, rfl⟩

theorem Nowhere.resume (place : m.Nowhere) {p : Pause}
    (ran : m.run (script.under .nowhere) fuel = .paused p n) (told : Array HostEvent) (v : Value) :
    ({ n with sent := told }.resume v).Nowhere := by
  obtain ⟨h, same⟩ : ∃ h : Step, m.run (script.under .nowhere) fuel = h.under .nowhere := place.run fuel
  rw [ran] at same
  cases h with
  | paused q k =>
    cases same
    exact ⟨{ k with sent := told }.resume v, congrArg (·.resume v) (under_withSent rfl k told).symm⟩
  | _ => cases same

/-- A run begins alike with a program and with its expansion. -/
theorem start_mirrors (script : Script) (canvas : Canvas) :
    Mirror (start script canvas) (start script.expand canvas) := by
  have topLevel : Mirrors true [.block script.topLevel, .entry "setup"]
      [.block (script.topLevel.flatMap Stmt.expand ++ []), .entry "setup"] :=
    .block script.topLevel (.pad (.border (k := .entry "setup") rfl .nil))
  rw [List.append_nil] at topLevel
  exact .of (start script canvas) topLevel trivial

theorem nowhere_call (idle : m.frames = []) (name : String) : (m.call name).Nowhere := by
  refine ⟨m.call name, ?_⟩
  obtain ⟨control, conts, frames, globals, world, sent⟩ := m
  cases idle
  exact congrArg (Machine.mk _ _ _ _ _) Array.empty_append.symm

end Machine

/-- A program that stands nowhere and its expansion cannot be told apart. -/
theorem Bisimulation.expand (s : Script) :
    Bisimulation (s.under .nowhere) (s.under .nowhere).expand fun m m' => Machine.Mirror m m' ∧ m.Nowhere where
  outside := by
    rintro - - ⟨⟨m, -, -⟩, -⟩
    rfl
  meets := by
    rintro m m' ⟨mirror, place⟩
    have meet : Machine.Meet Machine.Mirror (s.under .nowhere) (s.under .nowhere).expand m m' := mirror.meets place
    cases meet with
    | related left right again => exact .related left right ⟨again, place.next left⟩
    | halted a b alike => exact .halted a b (alike.and_left fun _ _ paused => place.resume paused)
  calls := by
    intro m m' same idle idle' name
    rw [← (Bisimulation.refl s).calls same idle idle' name]
    exact ⟨.of m (.border (k := .entry name) rfl .nil) trivial, Machine.nowhere_call idle name⟩

end Sketch
