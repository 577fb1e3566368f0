import Sketch.Proofs.Library.Maps
import Sketch.Proofs.Machine.Passes

/-!
What a step does apart from moving on in the program: nothing, or one assignment, call, return, or call of a library
function. Which it is can be told from the machine before the step. All steps are looked at here, once, and all that is
said of them elsewhere follows from `step_takes`.
-/

namespace Sketch

/-- The machine of a step, however the step ends. -/
def Step.machine : Step → Machine
  | .next m | .paused _ m | .finished m | .failed _ m | .crashed m => m

def Step.world : Step → World
  | .next m | .paused _ m | .finished m | .failed _ m | .crashed m => m.world

def FnDef.bind (f : FnDef) (args : List Value) : Dict Value :=
  .ofEntries (f.params.mapIdx fun i p => (p.name, args.getD i .nil))

/-- The effects that are not handed over yet. -/
def World.outbox (w : World) : Outbox := w.canvas.outbox

/-! ### Causes -/

def Cause.lacks? : Cause → Option String
  | .undefinedFunction name => some name
  | _ => none

/-- Whether a name is that of a function of the sketch or of the library. -/
def Script.has (script : Script) (name : String) : Bool :=
  (script.function? name).isSome || (Builtin.ofName? name).isSome

/-- What a step may fail for: a function that is lacking is not there, or is the method of a library. -/
structure Script.Permits (script : Script) (c : Cause) : Prop where
  kind : c.kind ≠ .overflow
  lacking : ∀ name ∈ c.lacks?, script.has name = false ∨ '.' ∈ name.toList

section Causes

variable {script : Script} {c : Cause}

theorem Script.Permits.of (kind : c.kind ≠ .overflow) (lacks : c.lacks? = none) : script.Permits c :=
  ⟨kind, by simp [lacks]⟩

theorem Script.Permits.of_ofValues (known : c.ofValues = true) : script.Permits c := by
  cases c with
  | callDepth | undefinedFunction => cases known
  | _ => exact .of (by simp [Cause.kind]) rfl

variable {op : BinOp} {h : Heap} {object : Value} {name : String}

theorem BinOp.onNumbers_ofValues {x y : Float} {result : Except Cause Value}
    (given : op.onNumbers x y = some result) (refused : result = .error c) : c.ofValues = true := by
  subst refused
  cases op
  case div | mod =>
    simp only [onNumbers, Option.some.injEq] at given
    split at given
    · cases given
      rfl
    · cases given
  all_goals cases given

theorem BinOp.apply_ofValues {a b : Value} (refused : op.apply h a b = .error c) : c.ofValues = true := by
  rw [apply.eq_def] at refused
  split at refused
  case h_1 | h_2 => cases refused
  case h_3 =>
    split at refused
    case h_1 x y =>
      cases given : op.onNumbers x y with
      | none =>
        simp only [given, Option.getD_none] at refused
        cases refused
        rfl
      | some result =>
        simp only [given, Option.getD_some] at refused
        exact onNumbers_ofValues given refused
    case h_2 =>
      split at refused
      case isTrue => cases refused
      case isFalse =>
        split at refused
        case h_1 =>
          split at refused
          case h_1 => cases refused
          case h_2 =>
            cases refused
            rfl
        case h_2 =>
          cases refused
          rfl

theorem UnOp.apply_ofValues {op : UnOp} {v : Value} (refused : op.apply v = .error c) : c.ofValues = true := by
  rw [apply.eq_def] at refused
  split at refused
  case h_1 | h_2 => cases refused
  case h_3 =>
    cases refused
    rfl

theorem Heap.item_ofValues {key : Value} (refused : h.item object key = .error c) : c.ofValues = true := by
  have checked {length : Nat} {f : Nat → Value} (refused : (checkedIndex key length).map f = .error c) :
      c.ofValues = true := by
    cases found : checkedIndex key length with
    | ok i =>
      rw [found] at refused
      cases refused
    | error c' =>
      rw [found] at refused
      cases refused
      exact checkedIndex_ofValues found
  rw [item.eq_def] at refused
  split at refused
  case h_1 | h_3 => exact checked refused
  case h_2 => cases refused
  case h_4 =>
    cases refused
    rfl

theorem Heap.field_permits (refused : h.field object name = .error c) : script.Permits c := by
  rw [field.eq_def] at refused
  split at refused
  case h_1 => cases refused
  case h_2 | h_3 =>
    split at refused
    · cases refused
    · cases refused
      exact .of (by simp [Cause.kind]) rfl

theorem methodAction_permits {receiver : Value} (refused : methodAction receiver name = .error c) :
    script.Permits c := by
  rw [methodAction.eq_def] at refused
  split at refused
  case h_1 =>
    split at refused
    · cases refused
      exact .of (by simp [Cause.kind]) rfl
    · split at refused
      · cases refused
      · cases refused
        -- A library that lacks a method shows it with its own name in front.
        refine ⟨by simp [Cause.kind], fun name lacks => .inr ?_⟩
        cases lacks
        rw [String.toList_append, String.toList_append]
        exact List.mem_append_left _ (List.mem_append_right _ (by decide))
  case h_2 =>
    split at refused
    · cases refused
    · cases refused
      exact .of (by simp [Cause.kind]) rfl

theorem Machine.read_permits (m : Machine) (refused : m.read name = .error c) : script.Permits c := by
  rw [read] at refused
  split at refused
  · cases refused
  · split at refused
    · cases refused
    · split at refused
      · cases refused
      · split at refused
        · cases refused
        · cases refused
          exact .of (by simp [Cause.kind]) rfl

end Causes

/-! ### Which turn a step takes -/

/-- The library function that gathered values go to, if they go to one. -/
def Gather.library? (script : Script) : Gather → Option Builtin
  | .call name => if (script.function? name).isSome then none else Builtin.ofName? name
  | .method (.library l) name => (Builtin.ofName? name).filter fun f => Library.ofName? l = some f.library
  | .method _ _ | .list => none

/-- The function of the sketch that gathered values go to, if they go to one. -/
def Gather.function? (script : Script) : Gather → Option FnDef
  | .call name => script.function? name
  | .method .. | .list => none

def Gather.mapOp? (script : Script) (goal : Gather) (values : List Value) : Option MapOp :=
  (goal.library? script).bind (·.mapOp? values)

/-- Gathered values are the arguments of a function of the sketch or of the library. -/
def Gather.turn (script : Script) (goal : Gather) (values : List Value) : Turn :=
  match goal.function? script, goal.library? script with
  | some f, _ => .calls f values
  | none, some f => .uses f values
  | none, none => .moves

/-- A round of a loop that counts begins by a write of its variable. -/
def Counting.turn (c : Counting) (i stop step : Float) : Turn :=
  if (0.0 < step && i ≤ stop) || (step < 0.0 && stop ≤ i) then .assigns c.var (.num i) else .moves

/-- The first round of a loop that counts. -/
def Counting.firstTurn (c : Counting) (start stop step : Float) : Turn :=
  if step == 0.0 || step.isNaN then .moves else c.turn start stop step

def Expr.turn (script : Script) : Expr → Turn
  | .call name [] _ => (Gather.call name).turn script []
  | _ => .moves

/-- Only a variable declared without a value is written at once. -/
def Stmt.turn (m : Machine) : Stmt → Turn
  | .declare name none _ => if m.isDefined name then .moves else .assigns name .nil
  | _ => .moves

def Expr.mapOp? (script : Script) : Expr → Option MapOp
  | .map [] _ => some (.literal [])
  | .call name [] _ => (Gather.call name).mapOp? script []
  | _ => none

/-- What a value does to maps by reaching a continuation. -/
def Cont.mapOp? (script : Script) (h : Heap) (v : Value) : Cont → Option MapOp
  | .gather goal _ done [] => goal.mapOp? script (v :: done).reverse
  | .methodArgs name [] _ => (Gather.method v name).mapOp? script []
  | .mapEntry key done [] => some (.literal ((key, v) :: done).reverse)
  | .write place none _ => place.mapOp? v
  | .write place (some (op, old)) _ =>
    match op.apply h old v with
    | .ok v => place.mapOp? v
    | .error _ => none
  | _ => none

namespace Cont

def deliverTurn (script : Script) (h : Heap) (v : Value) : Cont → Turn
  | .gather goal _ done [] => goal.turn script (v :: done).reverse
  | .methodArgs name [] _ => (Gather.method v name).turn script []
  | .write (.name name) none _ => .assigns name v
  | .write (.name name) (some (op, old)) _ =>
    match op.apply h old v with
    | .ok v => .assigns name v
    | .error _ => .moves
  | .countStop c start _ none =>
    match v with
    | .num stop => c.firstTurn start stop 1.0
    | _ => .moves
  | .countStep c start stop _ =>
    match v with
    | .num step => c.firstTurn start stop step
    | _ => .moves
  | _ => .moves

def proceedTurn (script : Script) : Cont → Turn
  | .countNext c i stop step => c.turn (i + step) stop step
  | .callEnd => .returns
  | .entry name =>
    match script.function? name with
    | some f => .calls f []
    | none => .moves
  | _ => .moves

def unwindTurn : Cont → Turn
  | .callEnd => .returns
  | _ => .moves

end Cont

namespace Machine

/-- The turn that the next step takes. -/
def turn (script : Script) (m : Machine) : Turn :=
  match m.control, m.conts with
  | .eval e, _ => e.turn script
  | .exec s, _ => s.turn m
  | .deliver v, k :: _ => k.deliverTurn script m.world.heap v
  | .proceed, k :: _ => k.proceedTurn script
  | .unwind _, k :: _ => k.unwindTurn
  | .deliver _, [] | .proceed, [] | .unwind _, [] => .moves

def mapOp? (script : Script) (m : Machine) : Option MapOp :=
  match m.control, m.conts with
  | .eval e, _ => e.mapOp? script
  | .deliver v, k :: _ => k.mapOp? script m.world.heap v
  | _, _ => none

/-- The innermost call is at the statement that is about to begin, if one is. -/
def begun (m : Machine) : Machine :=
  match m.control with
  | .exec s => m.moveTo s.pos
  | _ => m

theorem moveTo_isDefined (m : Machine) (pos : Pos) (name : String) :
    (m.moveTo pos).isDefined name = m.isDefined name := by
  obtain ⟨control, conts, frames, globals, world, sent⟩ := m
  cases frames <;> rfl

/-! ### What a turn is -/

/-- What a turn does to active calls and globals. -/
def act (m : Machine) : Turn → Machine
  | .assigns name v => m.assign name v
  | .calls f args => { m with frames := ⟨f.name, f.bind args, f.pos⟩ :: m.frames }
  | .returns => { m with frames := m.frames.tail }
  | .moves | .uses .. => m

/-- A step leads to where the machine stands, but for what is to be done next. -/
inductive Stays (m : Machine) : Step → Prop where
  | next (control : Control) : m.Stays (.next (m.goto control))
  | paused (p : Pause) : m.Stays (.paused p m)

/-- What a step does by a turn and to maps, once some continuations are used. -/
inductive Takes (script : Script) (m : Machine) (control : Control) (used : List Cont) :
    Turn → Option MapOp → Step → Prop where
  | moves (control' : Control) (new : List Cont) (passes : Passes control used .moves control' new) :
      m.Takes script control used .moves none (.next { m with control := control', conts := new ++ m.conts })
  | fails (ventures : control.Ventures used) (line : Nat) {c : Cause} (permits : script.Permits c) :
      m.Takes script control used .moves none (m.fail line c)
  /-- Lists and maps may change. -/
  | works {α : Type} (ventures : control.Ventures used) (line : Nat) {action : Action α} (goal : α → Control)
      {op : Option MapOp} (tidy : Tidy World.canvas action)
      (maps : ∀ w, (action.after w).maps = (w.after op).maps) (works : ∀ a, Works control used (goal a) []) :
      m.Takes script control used .moves op (m.perform line action fun a m => .next (m.goto (goal a)))
  | assigns (name : String) (v : Value) (control' : Control) (new : List Cont) (works : Works control used control' new)
      (keeps : control.Keeps used (· name)) : m.Takes script control used (.assigns name v) none
        (.next { m.assign name v with control := control', conts := new ++ (m.assign name v).conts })
  | calls {name : String} {f : FnDef} (found : script.function? name = some f) (args : List Value) (line : Nat)
      (ventures : control.Ventures used)
      (passes : Passes control used (.calls f args) .proceed [.block f.body, .callEnd]) :
      m.Takes script control used (.calls f args) none (callUser script m f args line)
  | returns (v : Value) (passes : Passes control used .returns (.deliver v) []) :
      m.Takes script control used .returns none (.next (m.endCall v))
  | uses {f : Builtin} {action : List Value → Action Value} (values : List Value) (uses : control.Uses used) (line : Nat)
      (known : f.action? = some action) :
      m.Takes script control used (.uses f values) (f.mapOp? values) (m.performValue line (action values))
  | pauses (p : PauseFn) (values : List Value) (uses : control.Uses used) (value : m.control.isValue = true)
      (line : Nat) :
      m.Takes script control used (.uses (.pause p) values) none (m.perform line (p.pause values) .paused)
  /-- No library has a method that pauses. -/
  | refuses (p : PauseFn) (values : List Value) (uses : control.Uses used) (line : Nat) {c : Cause}
      (permits : script.Permits c) : m.Takes script control used (.uses (.pause p) values) none (m.fail line c)

/-! ### Parts of a step -/

section Parts

variable {script : Script} {m : Machine} {control : Control} {used : List Cont} {tested : Bool}

namespace Takes

/-- A value is there, or it is that of another expression. -/
theorem value (uses : control.Uses used) {control' : Control} (value : control'.isValue = true) :
    m.Takes script control used .moves none (.next (m.goto control')) :=
  .moves control' [] (.works rfl (.values uses (List.forall_mem_nil _) value))

theorem part (uses : control.Uses used) (e : Expr) {k : Cont} (part : k.isPart = true) :
    m.Takes script control used .moves none (.next (m.evalThen e k)) :=
  .moves (.eval e) [k] (.works rfl (.values uses (List.forall_mem_singleton.mpr part) rfl))

theorem evaluates (opens : control.Opens used tested) (e : Expr) {k : Cont} (own : k.isOwn = true)
    (test : k.isTest = tested) (keeps : control.Keeps used (k.WritesOnly ·)) :
    m.Takes script control used .moves none (.next (m.evalThen e k)) :=
  .moves (.eval e) [k] (.works rfl (.evaluates opens e own test keeps))

theorem done (leaves : control.Leaves used tested) {control' : Control} (done : control'.isDone = true) :
    m.Takes script control used .moves none (.next (m.goto control')) :=
  .moves control' [] (.works rfl (.done leaves done))

theorem enters (leaves : control.Leaves used tested) {body : List Stmt}
    (keeps : control.Keeps used (BlockWritesOnly · body)) :
    m.Takes script control used .moves none (.next (m.enter body)) := by
  refine .moves .proceed [.block body] (.works rfl (.moves leaves rfl (.block body .nothing) ?_))
  exact fun P own writes => ⟨trivial, List.forall_mem_singleton.mpr (keeps P own writes)⟩

/-- Another statement is done before a loop goes on. -/
theorem clause (leaves : control.Leaves used true) {s : Stmt} {c : Clauses}
    (keeps : control.Keeps used fun P => s.WritesOnly P ∧ (Cont.clausesStart c).WritesOnly P) :
    m.Takes script control used .moves none
      (.next { m with control := .exec s, conts := .clausesStart c :: m.conts }) := by
  refine .moves (.exec s) [.clausesStart c] (.works rfl (.moves leaves rfl (.head rfl fun _ => rfl) ?_))
  exact fun P own writes => (keeps P own writes).imp_right List.forall_mem_singleton.mpr

/-- The body of a loop is done before the loop goes on. -/
theorem loops (leaves : control.Leaves used tested) {body : List Stmt} {k : Cont} (head : k.isHead = true)
    (ofTested : k.ofTested = true → tested = true)
    (keeps : control.Keeps used fun P => BlockWritesOnly P body ∧ k.WritesOnly P) :
    Works control used .proceed [.block body, k] := by
  refine .moves leaves rfl (.block body (.head head ofTested)) fun P own writes => ⟨trivial, ?_⟩
  obtain ⟨first, more⟩ := keeps P own writes
  exact List.forall_mem_cons.mpr ⟨first, List.forall_mem_singleton.mpr more⟩

end Takes

variable (m) (line : Nat)

theorem readPlace_permits {place : Place} {c : Cause} (refused : m.readPlace place = .error c) : script.Permits c := by
  cases place with
  | name name => exact read_permits m refused
  | index object key => exact .of_ofValues (Heap.item_ofValues refused)
  | field object name => exact Heap.field_permits refused

/-- A method of a library is the function of its name, if the library has it. -/
theorem methodAction_library (script : Script) (l name : String) :
    (methodAction (.library l) name).toOption =
      ((Gather.method (.library l) name).library? script).bind Builtin.action? := by
  rw [methodAction, Gather.library?]
  cases Library.ofName? l with
  | none => cases Builtin.ofName? name <;> rfl
  | some lib =>
    simp only [Library.actionOf?_eq, Option.some.injEq]
    cases ((Builtin.ofName? name).filter (lib = ·.library)).bind Builtin.action? <;> rfl

theorem methodAction_eq_ok {receiver : Value} {name : String} {action : List Value → Action Value}
    (other : ∀ l, receiver ≠ .library l) (known : methodAction receiver name = .ok action) :
    receiver.method? name = some action := by
  rw [methodAction.eq_def] at known
  split at known
  case h_1 l => exact absurd rfl (other l)
  case h_2 =>
    split at known
    · cases known
      assumption
    · cases known

section Values

variable (uses : control.Uses used)

include uses

theorem deliverOr_takes {result : Except Cause Value} (permits : ∀ {c}, result = .error c → script.Permits c) :
    m.Takes script control used .moves none (m.deliverOr line result) := by
  cases result with
  | ok v => exact .value uses rfl
  | error c => exact .fails uses.ventures line (permits rfl)

theorem performValue_takes {action : Action Value} {op : Option MapOp} (tidy : Tidy World.canvas action)
    (maps : ∀ w, (action.after w).maps = (w.after op).maps) :
    m.Takes script control used .moves op (m.performValue line action) :=
  .works uses.ventures line .deliver tidy maps fun _ => .values uses (List.forall_mem_nil _) rfl

/-- A call by name that has its arguments. -/
theorem callNamed_takes (value : m.control.isValue = true) (name : String) (args : List Value) :
    m.Takes script control used ((Gather.call name).turn script args) ((Gather.call name).mapOp? script args)
      (callNamed script m name args line) := by
  rw [callNamed, Gather.turn, Gather.mapOp?, Gather.function?, Gather.library?]
  cases function : script.function? name with
  | some f => exact .calls function args line uses.ventures (.calls uses)
  | none =>
    rw [Builtin.pauseOf?_eq, Builtin.actionOf?_eq]
    cases found : Builtin.ofName? name with
    | none =>
      have absent : script.has name = false := by rw [Script.has, function, found]; rfl
      refine .fails uses.ventures line ⟨by simp [Cause.kind], fun name lacks => ?_⟩
      cases lacks
      exact .inl absent
    | some f =>
      cases known : f.action? with
      | none =>
        cases f with
        | pause p => exact .pauses p args uses value line
        | canvas | math | lists | console | sense | cipher => cases known
      | some action =>
        cases f with
        | pause => cases known
        | _ =>
          simp only [Option.bind_some, known]
          exact .uses args uses line known

/-- A method that has its arguments. -/
theorem useMethod_takes (receiver : Value) (name : String) (values : List Value) :
    m.Takes script control used ((Gather.method receiver name).turn script values)
      ((Gather.method receiver name).mapOp? script values)
      (useGathered script m (.method receiver name) line values) := by
  rw [useGathered, Gather.turn, Gather.function?, Gather.mapOp?]
  cases receiver with
  | library l =>
    have known := methodAction_library script l name
    cases found : methodAction (.library l) name with
    | ok action =>
      rw [found] at known
      obtain ⟨f, found, known⟩ := Option.bind_eq_some_iff.mp known.symm
      rw [found]
      exact .uses values uses line known
    | error c =>
      have permits : script.Permits c := methodAction_permits found
      rw [found] at known
      cases called : (Gather.method (.library l) name).library? script with
      | none => exact .fails uses.ventures line permits
      | some f =>
        rw [called] at known
        cases f with
        | pause p => exact .refuses p values uses line permits
        | canvas | math | lists | console | sense | cipher => cases known
  | nil | num | bool | str | list | map =>
    change m.Takes script control used .moves none _
    split
    case h_1 known =>
      have method := methodAction_eq_ok (by simp) known
      have kept : Tidy World.maps _ := Value.method_tidy values method
      exact performValue_takes m line uses (Value.method_tidy values method) kept.after
    case h_2 refused => exact .fails uses.ventures line (methodAction_permits refused)

theorem useGathered_takes (value : m.control.isValue = true) (goal : Gather) (values : List Value) :
    m.Takes script control used (goal.turn script values) (goal.mapOp? script values)
      (useGathered script m goal line values) := by
  cases goal with
  | call name => exact callNamed_takes m line uses value name values
  | method receiver name => exact useMethod_takes m line uses receiver name values
  | list => exact performValue_takes m line uses inferInstance fun _ => rfl

theorem newMap_takes (entries : List (String × Value)) :
    m.Takes script control used .moves (some (.literal entries))
      (m.performValue 0 (World.newMap (.ofEntries entries))) :=
  performValue_takes m 0 uses inferInstance fun _ => rfl

end Values

/-- An expression that begins. -/
theorem evalStep_takes (value : m.control.isValue = true) (e : Expr) :
    m.Takes script (.eval e) [] (e.turn script) (e.mapOp? script) (evalStep script m e) := by
  have uses := Control.Uses.eval e
  cases e with
  | call name args pos =>
    cases args with
    | nil => exact useGathered_takes m pos.line uses value (.call name) []
    | cons e args => exact .part uses e rfl
  | list items pos =>
    cases items with
    | nil => exact useGathered_takes m pos.line uses value .list []
    | cons e items => exact .part uses e rfl
  | map entries pos =>
    cases entries with
    | nil => exact newMap_takes m uses []
    | cons entry entries => exact .part uses entry.2 rfl
  | ident name pos => exact deliverOr_takes m _ uses (read_permits m)
  | bin op left right pos => cases op <;> exact .part uses left rfl
  | num | bool | str | nil => exact .value uses rfl
  | un | method | field | index => exact .part uses _ rfl

section Statements

variable (ventures : control.Ventures used) (leaves : control.Leaves used tested)

include ventures in
theorem beginWrite_takes (opens : control.Opens used false) (place : Place) (op : Option BinOp) (value : Expr)
    (keeps : ∀ combine, control.Keeps used ((Cont.write place combine line).WritesOnly ·)) :
    m.Takes script control used .moves none (m.beginWrite place op value line) := by
  cases op with
  | none => exact .evaluates opens value rfl rfl (keeps none)
  | some op =>
    rw [beginWrite]
    split
    case h_1 => exact .evaluates opens value rfl rfl (keeps _)
    case h_2 refused => exact .fails ventures line (readPlace_permits m refused)

include ventures leaves in
/-- Only names are assigned; items and fields are those of lists and maps. -/
theorem writePlace_takes (place : Place) (v : Value)
    (keeps : control.Keeps used ((Cont.write place none line).WritesOnly ·)) :
    m.Takes script control used (match place with | .name name => .assigns name v | _ => .moves) (place.mapOp? v)
      (m.writePlace place v line) := by
  cases place with
  | name name => exact .assigns name v .proceed [] (.done leaves rfl) keeps
  | index object key =>
    exact .works ventures line (fun _ => .proceed) (storeIndex_tidy object key v) (storeIndex_maps · object key v)
      fun _ => .done leaves rfl
  | field object name =>
    exact .works ventures line (fun _ => .proceed) (storeField_tidy object name v) (storeField_maps · object name v)
      fun _ => .done leaves rfl

theorem branchNext_takes (opens : control.Opens used false) {otherwise : Option (List Stmt)}
    {rest : List (Expr × List Stmt)} (keeps : control.Keeps used fun P =>
      (∀ branch ∈ rest, BlockWritesOnly P branch.2) ∧ BlockWritesOnly P (otherwise.getD [])) :
    m.Takes script control used .moves none (m.branchNext otherwise rest) := by
  cases rest with
  | cons branch rest =>
    refine .evaluates opens branch.1 rfl rfl fun P own writes => ?_
    obtain ⟨each, last⟩ := keeps P own writes
    obtain ⟨body, rest⟩ := List.forall_mem_cons.mp each
    exact ⟨body, rest, last⟩
  | nil =>
    cases otherwise with
    | some body => exact .enters opens.leaves fun P own writes => (keeps P own writes).2
    | none => exact .done opens.leaves rfl

section Counts

variable {c : Counting} (keeps : control.Keeps used fun P => P c.var ∧ BlockWritesOnly P c.body)

include leaves keeps

theorem countRound_takes (i stop step : Float) :
    m.Takes script control used (c.turn i stop step) none (m.countRound c i stop step) := by
  rw [countRound, Counting.turn]
  split
  · refine .assigns c.var (.num i) .proceed [.block c.body, .countNext c i stop step] ?_ ?_
    · exact Takes.loops leaves rfl nofun fun P own writes => ⟨(keeps P own writes).2, keeps P own writes⟩
    · exact fun P own writes => (keeps P own writes).1
  · exact .done leaves rfl

include ventures in
theorem countFrom_takes (start stop step : Float) :
    m.Takes script control used (c.firstTurn start stop step) none (m.countFrom c start stop step) := by
  rw [countFrom, Counting.firstTurn]
  split
  · exact .fails ventures _ (.of_ofValues rfl)
  · exact countRound_takes m leaves keeps start stop step

end Counts

theorem clausesBody_takes (leaves : control.Leaves used true) {c : Clauses}
    (keeps : control.Keeps used ((Cont.clausesStep c).WritesOnly ·)) :
    m.Takes script control used .moves none (m.clausesBody c) :=
  .moves .proceed [.block c.body, .clausesStep c] (.works rfl (Takes.loops leaves rfl (fun _ => rfl)
    fun P own writes => ⟨(keeps P own writes).2, keeps P own writes⟩))

theorem clausesRound_takes (opens : control.Opens used true) {c : Clauses}
    (keeps : control.Keeps used ((Cont.clausesStart c).WritesOnly ·)) :
    m.Takes script control used .moves none (m.clausesRound c) := by
  rw [clausesRound]
  split
  case h_1 test _ => exact .evaluates opens test rfl rfl keeps
  case h_2 => exact clausesBody_takes m opens.leaves keeps

end Statements

/-- A statement that begins. -/
theorem execStep_takes (s : Stmt) : (m.moveTo s.pos).Takes script (.exec s) [] (s.turn m) none (m.execStep s) := by
  have ventures := Control.Ventures.exec s
  have leaves := Control.Leaves.exec s
  have opens := Control.Opens.exec s
  cases s with
  | declare name init pos =>
    have keeps (P : String → Prop) (own : Control.WritesOnly P (.exec (.declare name init pos)))
        (_ : ∀ k ∈ [], Cont.WritesOnly P k) : P name := (Stmt.writesOnly_declare pos name init).mp own
    cases init with
    | some init => exact .evaluates opens init rfl rfl keeps
    | none =>
      rw [execStep, beginStmt, Stmt.turn, moveTo_isDefined]
      split
      · exact .done leaves rfl
      · exact .assigns name .nil .proceed [] (.done leaves rfl) keeps
  | assign target op value pos =>
    cases target with
    | name name =>
      exact beginWrite_takes _ _ ventures opens _ op value fun _ P own _ =>
        (Stmt.writesOnly_assign pos name op value).mp own
    | index | field => exact .evaluates opens _ rfl rfl fun _ _ _ => trivial
  | branch branches otherwise pos =>
    exact branchNext_takes _ opens fun P own _ => (Stmt.writesOnly_branch pos branches otherwise).mp own
  | count var start stop step body pos =>
    exact .evaluates opens start rfl rfl fun P own _ => (Stmt.writesOnly_count pos var start stop step body).mp own
  | clauses init test step body pos =>
    have keeps (P : String → Prop) (own : Control.WritesOnly P (.exec (.clauses init test step body pos))) :=
      (Stmt.writesOnly_clauses pos init test step body).mp own
    cases init with
    | some init => exact .clause leaves fun P own _ => ⟨(keeps P own).1 init rfl, (keeps P own).2⟩
    | none => exact clausesRound_takes _ opens fun P own _ => (keeps P own).2
  | whileDo test body pos =>
    exact .evaluates opens test rfl rfl fun P own _ => (Stmt.writesOnly_whileDo pos test body).mp own
  | ret value pos =>
    cases value with
    | some value => exact .evaluates opens value rfl rfl fun _ _ _ => trivial
    | none => exact .done leaves rfl
  | eval e => exact .moves (.eval e) [] (.works rfl (.begins e))

variable {m}

/-- A statement that is done. -/
theorem proceedStep_takes (done : m.control.isDone = true) (k : Cont) :
    m.Takes script .proceed [k] (k.proceedTurn script) none (proceedStep script m k) := by
  have keeps := k.keeps .proceed
  have leaves (other : k.isCallEnd = false) : Control.Leaves .proceed [k] k.ofTested := .done rfl other
  cases k with
  | block rest =>
    cases rest with
    | nil => exact .moves m.control [] (.works rfl (.done (leaves rfl) done))
    | cons s rest =>
      refine .moves (.exec s) [.block rest] (.works rfl (.moves (leaves rfl) rfl (.block rest .nothing) ?_))
      intro P own writes
      obtain ⟨first, rest⟩ := List.forall_mem_cons.mp (keeps P own writes)
      exact ⟨first, List.forall_mem_singleton.mpr rest⟩
  | countNext c i stop step => exact countRound_takes m (leaves rfl) keeps _ stop step
  | whileNext test body => exact .evaluates (.done rfl rfl) test rfl rfl keeps
  | clausesStart c => exact clausesRound_takes m (.done rfl rfl) keeps
  | clausesStep c =>
    rw [proceedStep]
    split
    case h_1 step given =>
      exact .clause (leaves rfl) fun P own writes => ⟨(keeps P own writes).1 step given, keeps P own writes⟩
    case h_2 => exact clausesRound_takes m (.done rfl rfl) keeps
  | callEnd => exact .returns .nil (.returns rfl .nil)
  | entry name =>
    rw [proceedStep, Cont.proceedTurn]
    cases found : script.function? name with
    | some f => exact .calls found [] _ (.entry name) .enters
    | none => exact .moves m.control [] (.works rfl (.done (leaves rfl) done))
  | connective | rightOperand | applyBin | applyUn | gather | methodArgs | readField | indexKey | readIndex
  | mapEntry | assignKey | assignIndex | assignField | write | branch | countStart | countStop | countStep
  | whileTest | clausesTest | giveBack => exact .moves (.deliver .nil) [_] (.counts rfl)

theorem unwindStep_takes (done : m.control.isDone = true) (v : Value) (k : Cont) :
    m.Takes script (.unwind v) [k] k.unwindTurn none (m.unwindStep v k) := by
  cases k with
  | callEnd => exact .returns v (.returns rfl v)
  | clausesStart c => exact clausesRound_takes m (.done rfl rfl) (Cont.keeps _ _)
  | entry name => exact .moves .proceed [.entry name] (.outside v name)
  | _ => exact .moves m.control [] (.works rfl (.done (.done rfl rfl) done))

/-- A value that reaches a continuation. -/
theorem deliverStep_takes (value : m.control.isValue = true) (v : Value) (k : Cont) :
    m.Takes script (.deliver v) [k] (k.deliverTurn script m.world.heap v) (k.mapOp? script m.world.heap v)
      (deliverStep script m v k) := by
  have uses (part : k.isPart = true) : Control.Uses (.deliver v) [k] := .deliver v part
  have ventures (awaited : k.awaits = true) : Control.Ventures (.deliver v) [k] := .deliver v awaited
  have leaves (own : k.isOwn = true) : Control.Leaves (.deliver v) [k] k.ofTested := .deliver v own
  have keeps := k.keeps (.deliver v)
  cases k with
  | connective decisive right =>
    rw [deliverStep]
    split <;> exact .value (uses rfl) rfl
  | applyBin op left line =>
    exact deliverOr_takes m line (uses rfl) fun refused => .of_ofValues (BinOp.apply_ofValues refused)
  | applyUn op line =>
    exact deliverOr_takes m line (uses rfl) fun refused => .of_ofValues (UnOp.apply_ofValues refused)
  | gather goal line done todo =>
    cases todo with
    | nil => exact useGathered_takes m line (uses rfl) value goal _
    | cons e todo => exact .part (uses rfl) e rfl
  | methodArgs name args line =>
    cases args with
    | nil => exact useGathered_takes m line (uses rfl) value (.method v name) []
    | cons e args => exact .part (uses rfl) e rfl
  | readField name line => exact deliverOr_takes m line (uses rfl) Heap.field_permits
  | readIndex object line =>
    exact deliverOr_takes m line (uses rfl) fun refused => .of_ofValues (Heap.item_ofValues refused)
  | mapEntry key done todo =>
    cases todo with
    | nil => exact newMap_takes m (uses rfl) ((key, v) :: done).reverse
    | cons entry todo => exact .part (uses rfl) entry.2 rfl
  | rightOperand | indexKey => exact .part (uses rfl) _ rfl
  | assignKey key op value line => exact .evaluates (.deliver v rfl rfl) key rfl rfl fun _ _ _ => trivial
  | assignIndex object op value line =>
    exact beginWrite_takes m line (ventures rfl) (.deliver v rfl rfl) _ op value fun _ _ _ _ => trivial
  | assignField name op value line =>
    exact beginWrite_takes m line (ventures rfl) (.deliver v rfl rfl) _ op value fun _ _ _ _ => trivial
  | write place combine line =>
    have written (v' : Value) : m.Takes script (.deliver v) [.write place combine line] _ _ (m.writePlace place v' line) :=
      writePlace_takes m line (ventures rfl) (leaves rfl) place v' (by cases place <;> exact keeps)
    cases combine with
    | none => cases place <;> exact written v
    | some pair =>
      obtain ⟨op, old⟩ := pair
      cases applied : op.apply m.world.heap old v with
      | ok v' =>
        cases place
        all_goals
          simp only [deliverStep, Cont.deliverTurn, Cont.mapOp?, applied]
          exact written v'
      | error c =>
        have permits : script.Permits c := .of_ofValues (BinOp.apply_ofValues applied)
        cases place
        all_goals
          simp only [deliverStep, Cont.deliverTurn, Cont.mapOp?, applied]
          exact .fails (ventures rfl) line permits
  | branch body rest otherwise =>
    rw [deliverStep]
    split
    · exact .enters (leaves rfl) fun P own writes => (keeps P own writes).1
    · exact branchNext_takes m (.deliver v rfl rfl) fun P own writes => (keeps P own writes).2
  | countStart counting line stop step =>
    cases v with
    | num => exact .evaluates (.deliver _ rfl rfl) stop rfl rfl keeps
    | _ => exact .fails (ventures rfl) line (.of_ofValues rfl)
  | countStop counting start line step =>
    cases v with
    | num stop =>
      cases step with
      | some step => exact .evaluates (.deliver _ rfl rfl) step rfl rfl keeps
      | none => exact countFrom_takes m (ventures rfl) (leaves rfl) keeps start stop _
    | _ => cases step <;> exact .fails (ventures rfl) line (.of_ofValues rfl)
  | countStep counting start stop line =>
    cases v with
    | num step => exact countFrom_takes m (ventures rfl) (leaves rfl) keeps start stop step
    | _ => exact .fails (ventures rfl) line (.of_ofValues rfl)
  | whileTest test body =>
    rw [deliverStep]
    split
    · exact .moves .proceed [.block body, .whileNext test body] (.works rfl (Takes.loops (leaves rfl) rfl (fun _ => rfl)
        fun P own writes => ⟨keeps P own writes, keeps P own writes⟩))
    · exact .done (leaves rfl) rfl
  | clausesTest c =>
    rw [deliverStep]
    split
    · exact clausesBody_takes m (leaves rfl) keeps
    · exact .done (leaves rfl) rfl
  | giveBack => exact .done (leaves rfl) rfl
  | countNext | whileNext | clausesStart | clausesStep | block | callEnd | entry =>
    exact .moves .proceed [_] (.drops v rfl)

end Parts

/-- Nothing is left to do. -/
structure Finishes (script : Script) (m : Machine) : Prop where
  step : m.step script = .finished m
  turn : m.turn script = .moves
  mapOp : m.mapOp? script = none
  begun : m.begun = m
  conts : m.conts = []

/-- Every step uses some continuations and takes its turn, unless nothing is left. -/
theorem step_takes (script : Script) (m : Machine) : m.Finishes script ∨ ∃ used rest, m.conts = used ++ rest ∧
    { m.begun with conts := rest }.Takes script m.control used (m.turn script) (m.mapOp? script) (m.step script) := by
  obtain ⟨control, conts, frames, globals, world, sent⟩ := m
  cases control with
  | eval e => exact .inr ⟨[], conts, rfl, evalStep_takes _ rfl e⟩
  | exec s =>
    have takes := @execStep_takes script ⟨.exec s, conts, frames, globals, world, sent⟩ s
    exact .inr ⟨[], conts, rfl, by cases frames <;> exact takes⟩
  | deliver v =>
    cases conts with
    | nil => exact .inl ⟨rfl, rfl, rfl, rfl, rfl⟩
    | cons k ks => exact .inr ⟨[k], ks, rfl, deliverStep_takes rfl v k⟩
  | proceed =>
    cases conts with
    | nil => exact .inl ⟨rfl, rfl, rfl, rfl, rfl⟩
    | cons k ks => exact .inr ⟨[k], ks, rfl, proceedStep_takes rfl k⟩
  | unwind v =>
    cases conts with
    | nil => exact .inl ⟨rfl, rfl, rfl, rfl, rfl⟩
    | cons k ks => exact .inr ⟨[k], ks, rfl, unwindStep_takes rfl v k⟩

end Machine

end Sketch
