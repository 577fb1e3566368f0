import Sketch.Proofs.Machine.Stack
import Sketch.Proofs.Syntax.Relocation

/-!
Machines whose program stands elsewhere, or that have sent more before, do the same, at the other place and after what
they have sent.
-/

namespace Sketch

/-- What no step looks at: where its program stands, and what was sent before. -/
structure Guise where
  pos : Pos → Pos
  line : Nat → Nat
  told : Array HostEvent
  line_pos (p : Pos) : (pos p).line = line p.line

section Parts

variable (g : Guise)

def Counting.under (c : Counting) : Counting := ⟨c.var, c.body.map (Stmt.relocate g.pos), g.line c.line⟩

def Clauses.under (c : Clauses) : Clauses :=
  ⟨c.test.map (Expr.relocate g.pos), c.step.map (Stmt.relocate g.pos), c.body.map (Stmt.relocate g.pos)⟩

/-- The same continuation of a program that stands elsewhere. -/
def Cont.under : Cont → Cont
  | .connective decisive right => .connective decisive (right.relocate g.pos)
  | .rightOperand op right line => .rightOperand op (right.relocate g.pos) (g.line line)
  | .applyBin op left line => .applyBin op left (g.line line)
  | .applyUn op line => .applyUn op (g.line line)
  | .gather goal line done todo => .gather goal (g.line line) done (todo.map (Expr.relocate g.pos))
  | .methodArgs name args line => .methodArgs name (args.map (Expr.relocate g.pos)) (g.line line)
  | .readField name line => .readField name (g.line line)
  | .indexKey key line => .indexKey (key.relocate g.pos) (g.line line)
  | .readIndex object line => .readIndex object (g.line line)
  | .mapEntry key done todo => .mapEntry key done (todo.map (Prod.map id (Expr.relocate g.pos)))
  | .assignKey key op value line => .assignKey (key.relocate g.pos) op (value.relocate g.pos) (g.line line)
  | .assignIndex object op value line => .assignIndex object op (value.relocate g.pos) (g.line line)
  | .assignField name op value line => .assignField name op (value.relocate g.pos) (g.line line)
  | .write place combine line => .write place combine (g.line line)
  | .branch body rest otherwise =>
    .branch (body.map (Stmt.relocate g.pos)) (rest.map (relocateBranch g.pos))
      (otherwise.map (List.map (Stmt.relocate g.pos)))
  | .countStart c startLine stop step =>
    .countStart (c.under g) (g.line startLine) (stop.relocate g.pos) (step.map (Expr.relocate g.pos))
  | .countStop c start stopLine step =>
    .countStop (c.under g) start (g.line stopLine) (step.map (Expr.relocate g.pos))
  | .countStep c start stop stepLine => .countStep (c.under g) start stop (g.line stepLine)
  | .countNext c i stop step => .countNext (c.under g) i stop step
  | .whileTest test body => .whileTest (test.relocate g.pos) (body.map (Stmt.relocate g.pos))
  | .whileNext test body => .whileNext (test.relocate g.pos) (body.map (Stmt.relocate g.pos))
  | .clausesStart c => .clausesStart (c.under g)
  | .clausesTest c => .clausesTest (c.under g)
  | .clausesStep c => .clausesStep (c.under g)
  | .giveBack => .giveBack
  | .block rest => .block (rest.map (Stmt.relocate g.pos))
  | .callEnd => .callEnd
  | .entry name => .entry name

def Control.under : Control → Control
  | .eval e => .eval (e.relocate g.pos)
  | .exec s => .exec (s.relocate g.pos)
  | .deliver v => .deliver v
  | .proceed => .proceed
  | .unwind v => .unwind v

def CallFrame.under (f : CallFrame) : CallFrame := ⟨f.function, f.params, g.pos f.pos⟩

/-- The same machine, its program elsewhere, after what it has sent before. -/
def Machine.under (m : Machine) : Machine :=
  { control := m.control.under g, conts := m.conts.map (Cont.under g), frames := m.frames.map (CallFrame.under g)
    globals := m.globals, world := m.world, sent := g.told ++ m.sent }

def Failure.under (f : Failure) : Failure :=
  ⟨f.cause, g.line f.line, f.trace.map fun t => ⟨t.function, g.pos t.pos⟩⟩

/-- The same step of a machine whose program stands elsewhere. -/
def Step.under : Step → Step
  | .next m => .next (m.under g)
  | .paused p m => .paused p (m.under g)
  | .finished m => .finished (m.under g)
  | .failed f m => .failed (f.under g) (m.under g)
  | .crashed m => .crashed (m.under g)

def Script.under (s : Script) : Script :=
  ⟨s.topLevel.map (Stmt.relocate g.pos), s.functions.map (FnDef.relocate g.pos), s.maxCallDepth⟩

end Parts

namespace Machine

variable (g : Guise) (script : Script) (m : Machine)

/-! ### Access -/

theorem under_goto (c : Control) : (m.goto c).under g = (m.under g).goto (c.under g) := rfl

theorem under_evalThen (e : Expr) (k : Cont) :
    (m.evalThen e k).under g = (m.under g).evalThen (e.relocate g.pos) (k.under g) := rfl

theorem under_enter (body : List Stmt) :
    (m.enter body).under g = (m.under g).enter (body.map (Stmt.relocate g.pos)) := rfl

theorem under_push (k : Cont) :
    { m with conts := k :: m.conts }.under g = { m.under g with conts := k.under g :: (m.under g).conts } := rfl

theorem under_flush : m.flush.under g = (m.under g).flush :=
  congrArg (fun sent => { m.flush.under g with sent }) Array.append_assoc.symm

theorem countP_under (ks : List Cont) :
    (ks.map (Cont.under g)).countP Cont.isCallEnd = ks.countP Cont.isCallEnd := by
  rw [List.countP_map]
  congr
  funext k
  cases k <;> rfl

theorem under_abandon : m.abandon.under g = (m.under g).abandon := by
  have ends : (m.under g).conts.countP Cont.isCallEnd = m.conts.countP Cont.isCallEnd := countP_under g m.conts
  rw [abandon_eq, abandon_eq, ends]
  simp only [Machine.under, List.map_drop]
  rfl

theorem under_fail (line : Nat) (c : Cause) : (m.fail line c).under g = (m.under g).fail (g.line line) c := by
  have ends : (m.under g).conts.countP Cont.isCallEnd = m.conts.countP Cont.isCallEnd := countP_under g m.conts
  rw [fail_eq, fail_eq, ends]
  simp only [Step.under, Failure.under, Machine.under, List.map_take, List.map_drop, List.map_map]
  rfl

theorem under_param? (name : String) : (m.under g).param? name = m.param? name := by
  rw [param?, param?, under]
  cases m.frames <;> rfl

theorem under_read (name : String) : (m.under g).read name = m.read name := by
  rw [read, read, under_param?]
  rfl

theorem under_isDefined (name : String) : (m.under g).isDefined name = m.isDefined name := by
  rw [isDefined, isDefined, under_param?]
  rfl

theorem under_readPlace (place : Place) : (m.under g).readPlace place = m.readPlace place := by
  cases place with
  | name name => exact under_read g m name
  | index | field => rfl

theorem under_assign (name : String) (v : Value) : (m.assign name v).under g = (m.under g).assign name v := by
  obtain ⟨control, conts, frames, globals, world, sent⟩ := m
  cases frames with
  | nil => rfl
  | cons f rest =>
    change (if f.params.contains name then _ else _ : Machine).under g = if f.params.contains name then _ else _
    split <;> rfl

theorem under_moveTo (pos : Pos) : (m.moveTo pos).under g = (m.under g).moveTo (g.pos pos) := by
  obtain ⟨control, conts, frames, globals, world, sent⟩ := m
  cases frames <;> rfl

theorem under_deliverOr (line : Nat) (result : Except Cause Value) :
    (m.deliverOr line result).under g = (m.under g).deliverOr (g.line line) result := by
  cases result with
  | ok v => rfl
  | error c => exact under_fail g m line c

theorem under_perform {α : Type} (line : Nat) (action : Action α) {k k' : α → Machine → Step}
    (same : ∀ a m, (k a m).under g = k' a (m.under g)) :
    (m.perform line action k).under g = (m.under g).perform (g.line line) action k' := by
  have world : (m.under g).world = m.world := rfl
  rw [perform, perform, world]
  split
  · rw [same, under_flush]
    rfl
  · rw [under_fail, under_flush]
    rfl
  · rfl

theorem under_performValue (line : Nat) (action : Action Value) :
    (m.performValue line action).under g = (m.under g).performValue (g.line line) action :=
  under_perform g m line action fun _ _ => rfl

/-! ### Calls and expressions -/

theorem under_function? (name : String) :
    (script.under g).function? name = (script.function? name).map (FnDef.relocate g.pos) := by
  rw [Script.function?, Script.function?, Script.under, List.find?_map]
  rfl

theorem under_callUser (f : FnDef) (args : List Value) (line : Nat) :
    (callUser script m f args line).under g =
      callUser (script.under g) (m.under g) (f.relocate g.pos) args (g.line line) := by
  have length : (m.under g).frames.length = m.frames.length := List.length_map _
  have depth : (script.under g).maxCallDepth = script.maxCallDepth := rfl
  have params : (f.relocate g.pos).params.mapIdx (fun i p => (p.name, args.getD i .nil)) =
      f.params.mapIdx fun i p => (p.name, args.getD i .nil) := by
    apply List.ext_getElem?
    intro i
    simp only [FnDef.relocate, List.getElem?_mapIdx, List.getElem?_map, Option.map_map]
    rfl
  rw [callUser, callUser, length, depth, params]
  split
  · exact under_fail g m line _
  · rfl

theorem under_callNamed (name : String) (args : List Value) (line : Nat) :
    (callNamed script m name args line).under g =
      callNamed (script.under g) (m.under g) name args (g.line line) := by
  rw [callNamed, callNamed, under_function?]
  cases script.function? name with
  | some f => exact under_callUser g script m f args line
  | none =>
    simp only [Option.map_none]
    split
    · exact under_perform g m line _ fun _ _ => rfl
    · split
      · exact under_performValue g m line _
      · exact under_fail g m line _

theorem under_useGathered (goal : Gather) (line : Nat) (values : List Value) :
    (useGathered script m goal line values).under g =
      useGathered (script.under g) (m.under g) goal (g.line line) values := by
  cases goal with
  | call name => exact under_callNamed g script m name values line
  | method receiver name =>
    rw [useGathered, useGathered]
    split
    · exact under_performValue g m line _
    · exact under_fail g m line _
  | list => exact under_performValue g m line _

theorem under_gatherNext (goal : Gather) (line : Nat) (done : List Value) (todo : List Expr) :
    (gatherNext script m goal line done todo).under g =
      gatherNext (script.under g) (m.under g) goal (g.line line) done (todo.map (Expr.relocate g.pos)) := by
  cases todo with
  | nil => exact under_useGathered g script m goal line _
  | cons e todo => rfl

theorem under_mapNext (done : List (String × Value)) (todo : List (String × Expr)) :
    (m.mapNext done todo).under g = (m.under g).mapNext done (todo.map (Prod.map id (Expr.relocate g.pos))) := by
  cases todo with
  -- A new map cannot fail, so that its line does not matter.
  | nil => exact under_performValue g m 0 (World.newMap (.ofEntries done.reverse))
  | cons entry todo => rfl

/-- An expression begins alike wherever it stands. -/
theorem under_evalStep (e : Expr) :
    (evalStep script m e).under g = evalStep (script.under g) (m.under g) (e.relocate g.pos) := by
  cases e with
  | num | bool | str | nil => rfl
  | ident name pos =>
    rw [Expr.relocate, evalStep, evalStep, under_read, g.line_pos]
    exact under_deliverOr g m pos.line _
  | bin op left right pos =>
    rw [Expr.relocate]
    cases op <;> simp only [evalStep, Step.under, under_evalThen, Cont.under, g.line_pos]
  | un op operand pos => simp only [Expr.relocate, evalStep, Step.under, under_evalThen, Cont.under, g.line_pos]
  | call name args pos =>
    rw [Expr.relocate, Expr.relocateEach_eq_map, evalStep, evalStep, g.line_pos]
    exact under_gatherNext g script m _ pos.line [] args
  | method object name args pos =>
    simp only [Expr.relocate, Expr.relocateEach_eq_map, evalStep, Step.under, under_evalThen, Cont.under, g.line_pos]
  | field object name pos => simp only [Expr.relocate, evalStep, Step.under, under_evalThen, Cont.under, g.line_pos]
  | index object key pos => simp only [Expr.relocate, evalStep, Step.under, under_evalThen, Cont.under, g.line_pos]
  | list items pos =>
    rw [Expr.relocate, Expr.relocateEach_eq_map, evalStep, evalStep, g.line_pos]
    exact under_gatherNext g script m _ pos.line [] items
  | map entries pos =>
    rw [Expr.relocate, Expr.relocateEntries_eq_map, evalStep, evalStep]
    exact under_mapNext g m [] entries

/-! ### Statements -/

theorem under_beginWrite (place : Place) (op : Option BinOp) (value : Expr) (line : Nat) :
    (m.beginWrite place op value line).under g =
      (m.under g).beginWrite place op (value.relocate g.pos) (g.line line) := by
  cases op with
  | none => rfl
  | some op =>
    rw [beginWrite, beginWrite, under_readPlace]
    split
    · rfl
    · exact under_fail g m line _

theorem under_writePlace (place : Place) (v : Value) (line : Nat) :
    (m.writePlace place v line).under g = (m.under g).writePlace place v (g.line line) := by
  cases place with
  | name name =>
    rw [writePlace, writePlace, Step.under, under_goto, under_assign]
    rfl
  | index | field =>
    rw [writePlace, writePlace]
    apply under_perform
    intro _ _
    rfl

theorem under_branchNext (otherwise : Option (List Stmt)) (branches : List (Expr × List Stmt)) :
    (m.branchNext otherwise branches).under g =
      (m.under g).branchNext (otherwise.map (List.map (Stmt.relocate g.pos)))
        (branches.map (relocateBranch g.pos)) := by
  cases branches with
  | nil => cases otherwise <;> rfl
  | cons branch rest => rfl

theorem under_countRound (c : Counting) (i stop step : Float) :
    (m.countRound c i stop step).under g = (m.under g).countRound (c.under g) i stop step := by
  rw [countRound, countRound]
  split
  · rw [Step.under, under_enter, under_push, under_assign]
    rfl
  · rfl

theorem under_countFrom (c : Counting) (start stop step : Float) :
    (m.countFrom c start stop step).under g = (m.under g).countFrom (c.under g) start stop step := by
  rw [countFrom, countFrom]
  split
  · exact under_fail g m c.line _
  · exact under_countRound g m c start stop step

theorem under_loopNumber (part : LoopPart) (line : Nat) (v : Value) {k k' : Float → Step}
    (same : ∀ x, (k x).under g = k' x) :
    (m.loopNumber part line v k).under g = (m.under g).loopNumber part (g.line line) v k' := by
  cases v with
  | num x => exact same x
  | _ => exact under_fail g m line _

theorem under_clausesRound (c : Clauses) : (m.clausesRound c).under g = (m.under g).clausesRound (c.under g) := by
  obtain ⟨test, step, body⟩ := c
  cases test <;> rfl

/-- A statement begins alike wherever it stands. -/
theorem under_beginStmt (s : Stmt) : (m.beginStmt s).under g = (m.under g).beginStmt (s.relocate g.pos) := by
  cases s with
  | declare name init pos =>
    cases init with
    | none =>
      change Step.next ((if m.isDefined name then m else m.assign name .nil).under g |>.goto .proceed) =
        Step.next ((if (m.under g).isDefined name then m.under g else (m.under g).assign name .nil).goto .proceed)
      rw [under_isDefined, ← under_assign]
      split <;> rfl
    | some init =>
      simp only [Stmt.relocate, Option.map_some, beginStmt, Step.under, under_evalThen, Cont.under, g.line_pos]
  | assign target op value pos =>
    cases target with
    | name name =>
      simp only [Stmt.relocate, Target.relocate, beginStmt, g.line_pos]
      exact under_beginWrite g _ _ op value pos.line
    | index | field =>
      simp only [Stmt.relocate, Target.relocate, beginStmt, Step.under, under_evalThen, Cont.under, g.line_pos]
  | branch branches otherwise pos =>
    simp only [Stmt.relocate, Stmt.relocateBranches_eq_map, Stmt.relocateOtherwise_eq_map, beginStmt]
    exact under_branchNext g _ otherwise branches
  | count var start stop step body pos =>
    simp only [Stmt.relocate, Stmt.relocateBlock_eq_map, beginStmt, Step.under, under_evalThen, Cont.under,
      Counting.under, Expr.relocate_pos, g.line_pos]
  | clauses init test step body pos =>
    simp only [Stmt.relocate, Stmt.relocateBlock_eq_map, Stmt.relocateClause_eq_map, beginStmt]
    cases init with
    | none => exact under_clausesRound g _ _
    | some init => rfl
  | whileDo test body pos =>
    simp only [Stmt.relocate, Stmt.relocateBlock_eq_map, beginStmt, Step.under, under_evalThen, Cont.under]
  | ret value pos => cases value <;> rfl
  | eval e => rfl

theorem under_execStep (s : Stmt) : (m.execStep s).under g = (m.under g).execStep (s.relocate g.pos) := by
  rw [execStep, execStep, under_beginStmt, under_moveTo, Stmt.relocate_pos]

/-! ### Continuations -/

theorem under_endCall (v : Value) : (m.endCall v).under g = (m.under g).endCall v := by
  rw [endCall, endCall, under, under, List.map_tail]
  rfl

theorem under_proceedStep (k : Cont) :
    (proceedStep script m k).under g = proceedStep (script.under g) (m.under g) (k.under g) := by
  cases k with
  | block rest => cases rest <;> rfl
  | countNext c i stop step => exact under_countRound g m c _ stop step
  | clausesStart c => exact under_clausesRound g m c
  | clausesStep c =>
    obtain ⟨test, step, body⟩ := c
    cases step with
    | none => exact under_clausesRound g m _
    | some step => rfl
  | callEnd => exact congrArg Step.next (under_endCall g m .nil)
  | entry name =>
    rw [Cont.under, proceedStep, proceedStep, under_function?]
    cases script.function? name with
    | none => rfl
    | some f =>
      have called := under_callUser g script m f [] f.pos.line
      rw [← g.line_pos] at called
      exact called
  | _ => rfl

/-- A value arrives wherever the program stands. -/
theorem under_deliverStep (v : Value) (k : Cont) :
    (deliverStep script m v k).under g = deliverStep (script.under g) (m.under g) v (k.under g) := by
  cases k with
  | connective decisive right =>
    rw [Cont.under, deliverStep, deliverStep]
    split <;> rfl
  | applyBin op left line => exact under_deliverOr g m line _
  | applyUn op line => exact under_deliverOr g m line _
  | gather goal line done todo => exact under_gatherNext g script m goal line _ todo
  | methodArgs name args line => exact under_gatherNext g script m _ line [] args
  | readField name line => exact under_deliverOr g m line _
  | readIndex object line => exact under_deliverOr g m line _
  | mapEntry key done todo => exact under_mapNext g m _ todo
  | assignIndex object op value line => exact under_beginWrite g m _ op value line
  | assignField name op value line => exact under_beginWrite g m _ op value line
  | write place combine line =>
    cases combine with
    | none => exact under_writePlace g m place v line
    | some combine =>
      obtain ⟨op, old⟩ := combine
      have world : (m.under g).world = m.world := rfl
      rw [Cont.under, deliverStep, deliverStep, world]
      split
      · exact under_writePlace g m place _ line
      · exact under_fail g m line _
  | branch body rest otherwise =>
    rw [Cont.under, deliverStep, deliverStep]
    split
    · rfl
    · exact under_branchNext g m otherwise rest
  | countStart c line stop step =>
    apply under_loopNumber
    intro start
    simp only [Step.under, under_evalThen, Cont.under, Expr.relocate_pos, g.line_pos]
  | countStop c start line step =>
    apply under_loopNumber
    intro stop
    cases step with
    | none => exact under_countFrom g m c start stop 1.0
    | some step => simp only [Option.map_some, Step.under, under_evalThen, Cont.under, Expr.relocate_pos, g.line_pos]
  | countStep c start stop line =>
    exact under_loopNumber g m .step line v fun step => under_countFrom g m c start stop step
  | whileTest test body =>
    rw [Cont.under, deliverStep, deliverStep]
    split <;> rfl
  | clausesTest c =>
    rw [Cont.under, deliverStep, deliverStep]
    split <;> rfl
  | _ => rfl

theorem under_unwindStep (v : Value) (k : Cont) :
    (m.unwindStep v k).under g = (m.under g).unwindStep v (k.under g) := by
  cases k with
  | callEnd => exact congrArg Step.next (under_endCall g m v)
  | clausesStart c => exact under_clausesRound g m c
  | _ => rfl

/-! ### Steps and runs -/

theorem under_step : (m.step script).under g = (m.under g).step (script.under g) := by
  obtain ⟨control, conts, frames, globals, world, sent⟩ := m
  cases control with
  | eval e => exact under_evalStep g script _ e
  | exec s => exact under_execStep g _ s
  | deliver v =>
    cases conts with
    | nil => rfl
    | cons k ks => exact under_deliverStep g script _ v k
  | proceed =>
    cases conts with
    | nil => rfl
    | cons k ks => exact under_proceedStep g script _ k
  | unwind v =>
    cases conts with
    | nil => rfl
    | cons k ks => exact under_unwindStep g _ v k

/-- A run does the same wherever its program stands, and whatever was sent before. -/
theorem under_run (fuel : Nat) : (m.run script fuel).under g = (m.under g).run (script.under g) fuel := by
  induction fuel generalizing m with
  | zero => rfl
  | succ fuel ih =>
    rw [run, run, ← under_step]
    cases m.step script with
    | next m => exact ih m
    | paused | finished | failed | crashed => rfl

end Machine

/-! ### Two guises -/

namespace Guise

/-- All of a program stands nowhere. -/
def nowhere : Guise := ⟨fun _ => .nowhere, fun _ => 0, #[], fun _ => rfl⟩

/-- The program stays where it is, and `told` was sent before. -/
def after (told : Array HostEvent) : Guise := ⟨id, id, told, fun _ => rfl⟩

end Guise

section After

variable (told : Array HostEvent)

theorem Stmt.map_relocate_id (body : List Stmt) : body.map (Stmt.relocate id) = body :=
  map_of_mem fun s _ => Stmt.relocate_id s

/-- What was sent before changes no continuation. -/
theorem Cont.under_after (k : Cont) : k.under (.after told) = k := by
  have exprs (items : List Expr) : items.map (Expr.relocate id) = items := map_of_mem fun e _ => Expr.relocate_id e
  have option (e : Option Expr) : e.map (Expr.relocate id) = e :=
    option_map_of_mem fun e _ => Expr.relocate_id e
  have clause (s : Option Stmt) : s.map (Stmt.relocate id) = s := option_map_of_mem fun s _ => Stmt.relocate_id s
  have entries (todo : List (String × Expr)) : todo.map (Prod.map id (Expr.relocate id)) = todo :=
    map_of_mem fun entry _ => Prod.ext rfl (Expr.relocate_id entry.2)
  have branches (rest : List (Expr × List Stmt)) : rest.map (relocateBranch id) = rest :=
    map_of_mem fun branch _ => Prod.ext (Expr.relocate_id branch.1) (Stmt.map_relocate_id branch.2)
  have otherwise (body : Option (List Stmt)) : body.map (List.map (Stmt.relocate id)) = body :=
    option_map_of_mem fun body _ => Stmt.map_relocate_id body
  cases k <;>
    simp only [under, Guise.after, Counting.under, Clauses.under, Expr.relocate_id, Stmt.map_relocate_id, exprs, option,
      clause, entries, branches, otherwise, id]

theorem Machine.under_after (m : Machine) : m.under (.after told) = { m with sent := told ++ m.sent } := by
  have control : m.control.under (.after told) = m.control := by
    cases m.control with
    | eval e => exact congrArg Control.eval (Expr.relocate_id e)
    | exec s => exact congrArg Control.exec (Stmt.relocate_id s)
    | deliver | proceed | unwind => rfl
  have frames : m.frames.map (CallFrame.under (.after told)) = m.frames := map_of_mem fun f _ => rfl
  rw [under, control, map_of_mem fun k _ => Cont.under_after told k, frames]
  rfl

theorem Script.under_after (s : Script) : s.under (.after told) = s := by
  have functions : s.functions.map (FnDef.relocate id) = s.functions := by
    apply map_of_mem
    intro f _
    have params : f.params.map (Param.relocate id) = f.params := map_of_mem fun p _ => rfl
    rw [FnDef.relocate, Stmt.map_relocate_id, params]
    rfl
  obtain ⟨topLevel, functions, maxCallDepth⟩ := s
  simp only [under, Guise.after, Stmt.map_relocate_id, functions]

end After

end Sketch
