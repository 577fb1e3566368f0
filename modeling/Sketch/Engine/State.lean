import Sketch.Diagnostic
import Sketch.Machine.State

/-!
States of an engine: the runs it ever started, the clock, and what has come out so far. A run that was torn down stays
among them, since a pause in it may still come to its end. Times are in nanoseconds.
-/

namespace Sketch

/-- What an engine is doing, as a display shows it. -/
inductive Status where
  | idle
  /-- The top level or `setup` is running. -/
  | executing
  /-- A function runs once a frame. -/
  | looping
deriving DecidableEq, Repr, Inhabited

/-- What a paused run waits for: a point in time, or an answer, which is there once it was given. -/
inductive Wait where
  | time (deadline : Nat)
  | reply (answer : Option (Option String))
deriving DecidableEq, Repr, Inhabited

/-- What repeats in the frames of a run: a function, once a period. -/
structure Ticker where
  function : String
  period : Nat
deriving DecidableEq, Repr, Inhabited

/-- The parts of a run: the opening, which is the top level and `setup`, and the frames. -/
inductive Stage where
  | opening
  /-- A frame. The next one is due at `next`. -/
  | frame (ticker : Ticker) (next : Nat)
deriving DecidableEq, Repr, Inhabited

/-- Where a run stands between events. -/
inductive Phase where
  | waiting (stage : Stage) (wait : Wait)
  /-- In the middle of its work, which nothing can interrupt. -/
  | running (stage : Stage)
  /-- Frames are to follow, but the time between them is not measured yet. -/
  | scheduled (function : String)
  /-- Between frames. -/
  | resting (ticker : Ticker) (due : Nat)
  /-- The run neither goes on nor ends. -/
  | crashed
  | ended
deriving DecidableEq, Repr, Inhabited

namespace Phase

/-- Whether a run is in the middle of its work. -/
def isRunning : Phase → Bool
  | .running _ => true
  | _ => false

def isOpening : Phase → Bool
  | .waiting .opening _ | .running .opening => true
  | _ => false

/-- Whether the frames of a run are under way. -/
def isLooping : Phase → Bool
  | .waiting (.frame ..) _ | .running (.frame ..) | .scheduled _ | .resting .. => true
  | _ => false

end Phase

/-- How an order to execute a sketch ends. A run that is stopped ends well. -/
inductive Outcome where
  | ok
  | failed (f : Failure)
  | rejected (errors : List Diagnostic)
  | crashed
deriving DecidableEq, Repr, Inhabited

/-- What an engine reports on an order, apart from what the sketch itself does. -/
inductive Notice where
  | running
  | warned (warnings : List Diagnostic)
  | rejected (errors : List Diagnostic)
  | started
  | finished
  | failed (f : Failure) (line : Option Nat)
  | stopped
deriving DecidableEq, Repr, Inhabited

namespace Notice

/-- The console lines of a notice. A failure shows the calls that were active. -/
def lines : Notice → List Message
  | .running => [.plain .info "Running code..."]
  | .warned warnings => warnings.map fun d => ⟨.warning, d.display, some d.pos.line⟩
  | .rejected errors => errors.map fun d => ⟨.error, d.display, some d.pos.line⟩
  | .started => [.plain .success "Execution started"]
  | .finished => [.plain .success "Execution finished"]
  | .failed f line =>
    [⟨.error, if f.stack = "" then f.message else f.message ++ "\n" ++ f.stack, line⟩]
  | .stopped => [.plain .warning "Execution stopped"]

/-- Whether an order is over with a notice. -/
def isTerminal : Notice → Bool
  | .rejected _ | .finished | .failed .. | .stopped => true
  | .running | .warned _ | .started => false

end Notice

/-- What comes out of an engine. Everything is on account of an order. -/
inductive Output where
  | host (order : Nat) (e : HostEvent)
  | notice (order : Nat) (n : Notice)
  | completed (order : Nat) (outcome : Outcome)
deriving DecidableEq, Repr, Inhabited

namespace Output

/-- The order on whose account something comes out. -/
def order : Output → Nat
  | .host order _ | .notice order _ | .completed order _ => order

def events : Output → List HostEvent
  | .host _ e => [e]
  | .notice _ n => n.lines.map .message
  | .completed .. => []

end Output

/-- A run of a sketch. Once it is cancelled, it ends at its next chance. -/
structure Run where
  source : String
  script : Script
  /-- The function that runs once a frame. -/
  frameFunction : Option String
  machine : Machine
  phase : Phase
  cancelled : Bool
deriving Inhabited

/-- Where answers come from: they stand ready, with nil for a dismissal, or somebody gives them. -/
inductive Answers where
  | ready (replies : List (Option String))
  | live
deriving DecidableEq, Repr, Inhabited

/-- An engine. -/
structure Engine where
  config : Config
  answers : Answers
  devices : Devices
  status : Status
  /-- The run of each order so far, none for a sketch that was rejected. -/
  runs : List (Option Run)
  /-- The latest order that has a run. -/
  current : Option Nat
  now : Nat
  outputs : Array Output
deriving Inhabited

namespace Engine

/-- An engine that was not used yet. -/
def new (config : Config) (answers : Answers) : Engine :=
  { config, answers, devices := .initial, status := .idle, runs := [], current := none, now := 0
    outputs := #[] }

def run? (e : Engine) (order : Nat) : Option Run := e.runs[order]?.join

/-- Puts a run in the place of an order. -/
def setRun (e : Engine) (order : Nat) (r : Run) : Engine := { e with runs := e.runs.set order (some r) }

def put (e : Engine) (o : Output) : Engine := { e with outputs := e.outputs.push o }

/-- Hands events to the display on account of an order. -/
def hand (e : Engine) (order : Nat) (events : Array HostEvent) : Engine :=
  { e with outputs := e.outputs ++ events.map (.host order) }

/-- What came out, which is then gone. -/
def takeOutputs (e : Engine) : Array Output × Engine := (e.outputs, { e with outputs := #[] })

def currentRun? (e : Engine) : Option Run := e.current.bind e.run?

def global? (e : Engine) (name : String) : Option Value :=
  e.currentRun?.bind (·.machine.globals.get? name)

/-- Frames that the latest run has finished. -/
def frameCount (e : Engine) : Nat := (e.currentRun?.map (·.machine.world.canvas.frameCount)).getD 0

def heap (e : Engine) : Heap := (e.currentRun?.map (·.machine.world.heap)).getD .empty

end Engine

end Sketch
