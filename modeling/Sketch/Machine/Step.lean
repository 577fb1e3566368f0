import Sketch.Machine.Access
import Sketch.Value.Operator

/-!
One step of a running sketch. Every step is a small change of the state; a run is their sequence.
-/

namespace Sketch

/-- What a step leads to. -/
inductive Step where
  | next (m : Machine)
  /-- The sketch waits; it goes on when a value is delivered. -/
  | paused (p : Pause) (m : Machine)
  | finished (m : Machine)
  | failed (f : Failure) (m : Machine)
  | crashed (m : Machine)
deriving Inhabited

/-- A call as a failure shows it. -/
def CallFrame.entry (f : CallFrame) : TraceEntry := ⟨f.function, f.pos⟩

/-- A failure comes out of a call, which it shows from then on. -/
def Failure.outOf (frame : CallFrame) (f : Failure) : Failure := { f with trace := f.trace ++ [frame.entry] }

namespace Machine

/-- What ends a run comes past some continuations, innermost first. Past the end of a call it takes the frame of
    the call with it, and `note` is told of that. -/
def escape {α : Type} (note : CallFrame → α → α) : (past : Nat) → α → Machine → α × Machine
  | 0, a, m => (a, m)
  | past + 1, a, m =>
    match m.conts, m.frames with
    | .callEnd :: conts, f :: frames => escape note past (note f a) { m with conts, frames }
    | conts, _ => escape note past a { m with conts := conts.tail }

/-- The run fails. The failure comes out of one call after the other. -/
def fail (m : Machine) (line : Nat) (c : Cause) : Step :=
  let out := m.escape Failure.outOf m.conts.length ⟨c, line, []⟩
  .failed out.1 (out.2.goto .proceed)

/-- The run is stopped. That comes out of one call after the other too, and nothing shows them. -/
def abandon (m : Machine) : Machine := (m.escape (fun _ _ => ()) m.conts.length ()).2.goto .proceed

/-- Goes on with a value, unless there is a reason to fail. -/
def deliverOr (m : Machine) (line : Nat) : Except Cause Value → Step
  | .ok v => .next (m.goto (.deliver v))
  | .error c => m.fail line c

/-- Does an action and hands over its effects. Only calls of the library leave any, so that it makes no difference
    that the outbox is looked at after all actions. -/
def perform {α : Type} (m : Machine) (line : Nat) (action : Action α) (k : α → Machine → Step) : Step :=
  match action.run m.world with
  | .ok a world => k a { m with world }.flush
  | .error (.cause c) world => { m with world }.flush.fail line c
  | .error .crash world => .crashed { m with world }

/-- Goes on with the value of an action. -/
def performValue (m : Machine) (line : Nat) (action : Action Value) : Step :=
  m.perform line action fun v m => .next (m.goto (.deliver v))

/-- Calls a function of the sketch. Missing arguments are nil and extra ones are ignored. -/
def callUser (script : Script) (m : Machine) (f : FnDef) (args : List Value) (line : Nat) : Step :=
  if script.maxCallDepth ≤ m.frames.length then m.fail line (.callDepth script.maxCallDepth f.name)
  else
    let params := Dict.ofEntries (f.params.mapIdx fun i p => (p.name, args.getD i .nil))
    .next ({ m with frames := ⟨f.name, params, f.pos⟩ :: m.frames, conts := .callEnd :: m.conts }.enter
      f.body)

/-- Calls by name: the sketch's own functions, then those that pause, then the library. -/
def callNamed (script : Script) (m : Machine) (name : String) (args : List Value) (line : Nat) : Step :=
  match script.function? name with
  | some f => callUser script m f args line
  | none =>
    match Builtin.pauseOf? name with
    | some f =>
      m.perform line (f.pause args) .paused
    | none =>
      match Builtin.actionOf? name with
      | some action => m.performValue line (action args)
      | none => m.fail line (.undefinedFunction name)

def useGathered (script : Script) (m : Machine) (goal : Gather) (line : Nat) (values : List Value) : Step :=
  match goal with
  | .call name => callNamed script m name values line
  | .method receiver name =>
    match methodAction receiver name with
    | .ok action => m.performValue line (action values)
    | .error c => m.fail line c
  | .list => m.performValue line (World.newList values.toArray)

/-- Gathers values from left to right. -/
def gatherNext (script : Script) (m : Machine) (goal : Gather) (line : Nat) (done : List Value) :
    List Expr → Step
  | [] => useGathered script m goal line done.reverse
  | e :: todo => .next (m.evalThen e (.gather goal line done todo))

/-- Gathers the entries of a map from left to right. -/
def mapNext (m : Machine) (done : List (String × Value)) : List (String × Expr) → Step
  | [] => m.performValue 0 (World.newMap (.ofEntries done.reverse))
  | (key, e) :: todo => .next (m.evalThen e (.mapEntry key done todo))

/-- Begins an expression. -/
def evalStep (script : Script) (m : Machine) : Expr → Step
  | .num x _ => .next (m.goto (.deliver (.num x)))
  | .bool b _ => .next (m.goto (.deliver (.bool b)))
  | .str s _ => .next (m.goto (.deliver (.str s)))
  | .nil _ => .next (m.goto (.deliver .nil))
  | .ident name pos => m.deliverOr pos.line (m.read name)
  | .bin .and left right _ => .next (m.evalThen left (.connective false right))
  | .bin .or left right _ => .next (m.evalThen left (.connective true right))
  | .bin op left right pos => .next (m.evalThen left (.rightOperand op right pos.line))
  | .un op operand pos => .next (m.evalThen operand (.applyUn op pos.line))
  | .call name args pos => gatherNext script m (.call name) pos.line [] args
  | .method object name args pos => .next (m.evalThen object (.methodArgs name args pos.line))
  | .field object name pos => .next (m.evalThen object (.readField name pos.line))
  | .index object key pos => .next (m.evalThen object (.indexKey key pos.line))
  | .list items pos => gatherNext script m .list pos.line [] items
  | .map entries _ => m.mapNext [] entries

/-- Begins the write of an assignment. With an operator the old value is read first. -/
def beginWrite (m : Machine) (place : Place) (op : Option BinOp) (value : Expr) (line : Nat) : Step :=
  match op with
  | none => .next (m.evalThen value (.write place none line))
  | some op =>
    match m.readPlace place with
    | .ok old => .next (m.evalThen value (.write place (some (op, old)) line))
    | .error c => m.fail line c

def writePlace (m : Machine) (place : Place) (v : Value) (line : Nat) : Step :=
  let done (_ : Unit) (m : Machine) : Step := .next (m.goto .proceed)
  match place with
  | .name name => .next ((m.assign name v).goto .proceed)
  | .index object key => m.perform line (storeIndex object key v) done
  | .field object name => m.perform line (storeField object name v) done

/-- Takes the first branch whose test holds. -/
def branchNext (m : Machine) (otherwise : Option (List Stmt)) : List (Expr × List Stmt) → Step
  | (test, body) :: rest => .next (m.evalThen test (.branch body rest otherwise))
  | [] =>
    match otherwise with
    | some body => .next (m.enter body)
    | none => .next (m.goto .proceed)

/-- A round of a loop that counts, if there is one more. -/
def countRound (m : Machine) (c : Counting) (i stop step : Float) : Step :=
  if (0.0 < step && i ≤ stop) || (step < 0.0 && stop ≤ i) then
    let m := m.assign c.var (.num i)
    .next ({ m with conts := .countNext c i stop step :: m.conts }.enter c.body)
  else .next (m.goto .proceed)

/-- Starts the rounds of a loop that counts. -/
def countFrom (m : Machine) (c : Counting) (start stop step : Float) : Step :=
  if step == 0.0 || step.isNaN then m.fail c.line .zeroStep else m.countRound c start stop step

/-- The number for a part of a loop that counts. -/
def loopNumber (m : Machine) (part : LoopPart) (line : Nat) (v : Value) (k : Float → Step) : Step :=
  match v with
  | .num x => k x
  | v => m.fail line (.loopPart part v.type)

/-- Does the body of a loop with clauses. -/
def clausesBody (m : Machine) (c : Clauses) : Step :=
  .next ({ m with conts := .clausesStep c :: m.conts }.enter c.body)

/-- The head of a loop with clauses. Without a test it always goes on. -/
def clausesRound (m : Machine) (c : Clauses) : Step :=
  match c.test with
  | some test => .next (m.evalThen test (.clausesTest c))
  | none => m.clausesBody c

/-- Begins a statement, from its place. -/
def beginStmt (m : Machine) : Stmt → Step
  | .declare name (some init) pos => .next (m.evalThen init (.write (.name name) none pos.line))
  | .declare name none _ =>
    .next ((if m.isDefined name then m else m.assign name .nil).goto .proceed)
  | .assign (.name name) op value pos => m.beginWrite (.name name) op value pos.line
  | .assign (.index object key) op value pos =>
    .next (m.evalThen object (.assignKey key op value pos.line))
  | .assign (.field object name) op value pos =>
    .next (m.evalThen object (.assignField name op value pos.line))
  | .branch branches otherwise _ => m.branchNext otherwise branches
  | .count var start stop step body pos =>
    .next (m.evalThen start (.countStart ⟨var, body, pos.line⟩ start.pos.line stop step))
  | .clauses init test step body _ =>
    let c : Clauses := ⟨test, step, body⟩
    match init with
    | some init => .next { m with control := .exec init, conts := .clausesStart c :: m.conts }
    | none => m.clausesRound c
  | .whileDo test body _ => .next (m.evalThen test (.whileTest test body))
  | .ret (some value) _ => .next (m.evalThen value .giveBack)
  | .ret none _ => .next (m.goto (.unwind .nil))
  | .eval e => .next (m.goto (.eval e))

def execStep (m : Machine) (s : Stmt) : Step := (m.moveTo s.pos).beginStmt s

def endCall (m : Machine) (v : Value) : Machine :=
  { m with frames := m.frames.tail, control := .deliver v }

/-- A statement is done before `k`. -/
def proceedStep (script : Script) (m : Machine) (k : Cont) : Step :=
  match k with
  | .block [] => .next m
  | .block (s :: rest) => .next { m with control := .exec s, conts := .block rest :: m.conts }
  | .countNext c i stop step => m.countRound c (i + step) stop step
  | .whileNext test body => .next (m.evalThen test (.whileTest test body))
  | .clausesStart c => m.clausesRound c
  | .clausesStep c =>
    match c.step with
    | some step => .next { m with control := .exec step, conts := .clausesStart c :: m.conts }
    | none => m.clausesRound c
  | .callEnd => .next (m.endCall .nil)
  | .entry name =>
    match script.function? name with
    | some f => callUser script m f [] f.pos.line
    | none => .next m
  | _ => .next { m with control := .deliver .nil, conts := k :: m.conts }

/-- A value goes to `k`. -/
def deliverStep (script : Script) (m : Machine) (v : Value) (k : Cont) : Step :=
  match k with
  | .connective decisive right =>
    if v.truthy = decisive then .next (m.goto (.deliver v)) else .next (m.goto (.eval right))
  | .rightOperand op right line => .next (m.evalThen right (.applyBin op v line))
  | .applyBin op left line => m.deliverOr line (op.apply m.world.heap left v)
  | .applyUn op line => m.deliverOr line (op.apply v)
  | .gather goal line done todo => gatherNext script m goal line (v :: done) todo
  | .methodArgs name args line => gatherNext script m (.method v name) line [] args
  | .readField name line => m.deliverOr line (m.world.heap.field v name)
  | .indexKey key line => .next (m.evalThen key (.readIndex v line))
  | .readIndex object line => m.deliverOr line (m.world.heap.item object v)
  | .mapEntry key done todo => m.mapNext ((key, v) :: done) todo
  | .assignKey key op value line => .next (m.evalThen key (.assignIndex v op value line))
  | .assignIndex object op value line => m.beginWrite (.index object v) op value line
  | .assignField name op value line => m.beginWrite (.field v name) op value line
  | .write place none line => m.writePlace place v line
  | .write place (some (op, old)) line =>
    match op.apply m.world.heap old v with
    | .ok v => m.writePlace place v line
    | .error c => m.fail line c
  | .branch body rest otherwise =>
    if v.truthy then .next (m.enter body) else m.branchNext otherwise rest
  | .countStart c line stop step =>
    m.loopNumber .start line v fun start => .next (m.evalThen stop (.countStop c start stop.pos.line step))
  | .countStop c start line step =>
    m.loopNumber .limit line v fun stop =>
      match step with
      | some step => .next (m.evalThen step (.countStep c start stop step.pos.line))
      | none => m.countFrom c start stop 1.0
  | .countStep c start stop line => m.loopNumber .step line v fun step => m.countFrom c start stop step
  | .whileTest test body =>
    if v.truthy then .next ({ m with conts := .whileNext test body :: m.conts }.enter body)
    else .next (m.goto .proceed)
  | .clausesTest c => if v.truthy then m.clausesBody c else .next (m.goto .proceed)
  | .giveBack => .next (m.goto (.unwind v))
  | k => .next { m with control := .proceed, conts := k :: m.conts }

/-- A call returns through `k`. The first and the last clause of a loop keep a return to themselves. -/
def unwindStep (m : Machine) (v : Value) (k : Cont) : Step :=
  match k with
  | .callEnd => .next (m.endCall v)
  | .clausesStart c => m.clausesRound c
  | .entry name => .next { m with control := .proceed, conts := .entry name :: m.conts }
  | _ => .next m

def step (script : Script) (m : Machine) : Step :=
  match m.control with
  | .eval e => evalStep script m e
  | .exec s => m.execStep s
  | .deliver v =>
    match m.conts with
    | [] => .finished m
    | k :: ks => deliverStep script { m with conts := ks } v k
  | .proceed =>
    match m.conts with
    | [] => .finished m
    | k :: ks => proceedStep script { m with conts := ks } k
  | .unwind v =>
    match m.conts with
    | [] => .finished m
    | k :: ks => unwindStep { m with conts := ks } v k

end Machine

end Sketch
