import Sketch.Canvas

/-!
States of a running sketch: its control is what to do next, its continuations what comes after that, innermost first.
A value that is not awaited is dropped, and a finished statement counts as nil where a value is awaited.
-/

namespace Sketch

/-- What a sketch is compiled to for running. -/
structure Script where
  topLevel : List Stmt
  functions : List FnDef
  maxCallDepth : Nat
deriving Inhabited

namespace Script

def ofProgram (p : Program) (maxCallDepth : Nat) : Script := ⟨p.topLevel, p.functions, maxCallDepth⟩

/-- The function of a name; the first declaration counts. -/
def function? (s : Script) (name : String) : Option FnDef := s.functions.find? (·.name = name)

end Script

/-- An active call of one of the sketch's own functions. -/
structure CallFrame where
  function : String
  params : Dict Value
  /-- The statement that began last. -/
  pos : Pos
deriving Inhabited

/-- What the values of a list of expressions are gathered for. -/
inductive Gather where
  | call (name : String)
  | method (receiver : Value) (name : String)
  | list
deriving DecidableEq, Repr, Inhabited

/-- A place that an assignment writes to, its parts evaluated. -/
inductive Place where
  | name (name : String)
  | index (object key : Value)
  | field (object : Value) (name : String)
deriving DecidableEq, Repr, Inhabited

/-- The parts of a loop that counts, its bounds apart. -/
structure Counting where
  var : String
  body : List Stmt
  line : Nat
deriving Inhabited

/-- The parts of a loop with clauses, the first apart. -/
structure Clauses where
  test : Option Expr
  step : Option Stmt
  body : List Stmt
deriving Inhabited

/-- What comes after a value or a statement. Failures are reported for the line that a continuation
    carries. -/
inductive Cont where
  /-- The right operand of a connective, unless the left one is `decisive`. -/
  | connective (decisive : Bool) (right : Expr)
  | rightOperand (op : BinOp) (right : Expr) (line : Nat)
  | applyBin (op : BinOp) (left : Value) (line : Nat)
  | applyUn (op : UnOp) (line : Nat)
  /-- More values to gather; those at hand are in reverse order. -/
  | gather (goal : Gather) (line : Nat) (done : List Value) (todo : List Expr)
  | methodArgs (name : String) (args : List Expr) (line : Nat)
  | readField (name : String) (line : Nat)
  | indexKey (key : Expr) (line : Nat)
  | readIndex (object : Value) (line : Nat)
  /-- More entries of a map; those at hand are in reverse order. -/
  | mapEntry (key : String) (done : List (String × Value)) (todo : List (String × Expr))
  | assignKey (key : Expr) (op : Option BinOp) (value : Expr) (line : Nat)
  | assignIndex (object : Value) (op : Option BinOp) (value : Expr) (line : Nat)
  | assignField (name : String) (op : Option BinOp) (value : Expr) (line : Nat)
  /-- The write of an assignment, after its value is combined with the old one if it has an operator. -/
  | write (place : Place) (combine : Option (BinOp × Value)) (line : Nat)
  | branch (body : List Stmt) (rest : List (Expr × List Stmt)) (otherwise : Option (List Stmt))
  | countStart (c : Counting) (startLine : Nat) (stop : Expr) (step : Option Expr)
  | countStop (c : Counting) (start : Float) (stopLine : Nat) (step : Option Expr)
  | countStep (c : Counting) (start stop : Float) (stepLine : Nat)
  /-- The next round of a loop that counts, after the body of the round with `i`. -/
  | countNext (c : Counting) (i stop step : Float)
  | whileTest (test : Expr) (body : List Stmt)
  | whileNext (test : Expr) (body : List Stmt)
  | clausesStart (c : Clauses)
  | clausesTest (c : Clauses)
  | clausesStep (c : Clauses)
  | giveBack
  | block (rest : List Stmt)
  /-- The end of a call. -/
  | callEnd
  /-- A call without arguments of a function that the sketch may declare. -/
  | entry (name : String)
deriving Inhabited

/-- What is to be done next. -/
inductive Control where
  | eval (e : Expr)
  | exec (s : Stmt)
  /-- A value goes to the innermost continuation. -/
  | deliver (v : Value)
  /-- A statement is done. -/
  | proceed
  /-- A call returns: continuations up to its end are dropped. -/
  | unwind (v : Value)
deriving Inhabited

/-- State of a running sketch. -/
structure Machine where
  control : Control
  conts : List Cont
  /-- Active calls, innermost first. -/
  frames : List CallFrame
  globals : Dict Value
  world : World
  /-- What the display received since it was last looked at. -/
  sent : Array HostEvent
deriving Inhabited

namespace Machine

/-- A run that is to do the statements of the top level and then to call `setup`. -/
def start (script : Script) (canvas : Canvas) : Machine :=
  { control := .proceed, conts := [.block script.topLevel, .entry "setup"], frames := []
    globals := .empty, world := ⟨.empty, canvas⟩, sent := #[] }

/-- The machine about to call a function of the sketch, after all else is done. -/
def call (m : Machine) (name : String) : Machine := { m with control := .proceed, conts := [.entry name] }

/-- The next thing to do. -/
def goto (m : Machine) (control : Control) : Machine := { m with control }

/-- Evaluates an expression before `k`. -/
def evalThen (m : Machine) (e : Expr) (k : Cont) : Machine :=
  { m with control := .eval e, conts := k :: m.conts }

def enter (m : Machine) (body : List Stmt) : Machine :=
  { m with control := .proceed, conts := .block body :: m.conts }

/-- Hands over what is in the outbox. -/
def flush (m : Machine) : Machine :=
  let (events, canvas) := m.world.canvas.takeOutbox
  { m with world := { m.world with canvas }, sent := m.sent ++ events.toArray }

end Machine

end Sketch
