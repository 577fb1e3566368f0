import Sketch.Engine.Lifecycle

/-!
An engine among its surroundings. A move is the least that can happen to it. A display waits until an engine is at
rest before it does the next thing.
-/

namespace Sketch

/-- What can happen next to an engine. -/
inductive Move where
  | execute (source : String)
  | stop
  | device (d : DeviceEvent)
  /-- Somebody answers the question of an order, with nil to dismiss it. -/
  | answer (order : Nat) (reply : Option String)
  /-- It is a certain time, or later. -/
  | clock (time : Nat)
  /-- The run of an order goes on. -/
  | poll (order : Nat)
deriving DecidableEq, Repr, Inhabited

namespace Engine

/-- The order whose run is in the middle of its work. -/
def busy? (e : Engine) : Option Nat := e.runs.findIdx? (·.any (·.phase.isRunning))

def busy (e : Engine) : Bool := e.busy?.isSome

/-- Goes on with the run of an order, if it can. It has to wait for one in the middle of its work. -/
def poll? (e : Engine) (order : Nat) : Option Engine := do
  let r ← e.run? order
  let time ← r.wake?
  if time ≤ e.now ∧ (r.phase.isRunning ∨ !e.busy) then some (e.goOn order r) else none

/-- What a move leads to, if it can be made. While a run is in the middle of its work, only that goes on. -/
def move? (e : Engine) : Move → Option Engine
  | .execute source => if e.busy then none else some (e.execute source)
  | .stop => if e.busy then none else some e.stop
  | .device d => if e.busy then none else some { e with devices := e.devices.receive d }
  | .answer order reply => if e.busy then none else e.answer? order reply
  | .clock time => some { e with now := max e.now time }
  | .poll order => e.poll? order

/-- Makes a move if it can be made. -/
def moveOr (e : Engine) (m : Move) : Engine := (e.move? m).getD e

/-- The earliest of some times, each with its order; of several the first. -/
def earliest : List (Nat × Nat) → Option (Nat × Nat)
  | [] => none
  | wake :: rest =>
    match earliest rest with
    | none => some wake
    | some other => if other.1 < wake.1 then some other else some wake

/-- When a run goes on next by itself, and which. A run in the middle of its work comes first. -/
def next? (e : Engine) : Option (Nat × Nat) :=
  match e.busy? with
  | some order => some (0, order)
  | none => earliest (e.runs.zipIdx.filterMap fun (r, order) => (r.bind Run.wake?).map (·, order))

/-- Lets the clock run up to a time, with at most `fuel` things that happen by themselves. -/
def advanceTo : (fuel : Nat) → (target : Nat) → Engine → Engine
  | 0, _, e => e
  | fuel + 1, target, e =>
    match e.next? with
    | some (time, order) =>
      if time ≤ target then advanceTo fuel target ((e.moveOr (.clock time)).moveOr (.poll order))
      else e.moveOr (.clock target)
    | none => e.moveOr (.clock target)

/-- How often runs can go on by themselves until the clock stands. -/
def patience : Nat := Nat.pow 2 60

/-- The order that waits for an answer which somebody has to give. -/
def asked? (e : Engine) : Option Nat := do
  let order ← e.current
  let r ← e.run? order
  match r.phase with
  | .waiting _ (.reply none) => some order
  | _ => none

end Engine

/-- What a display does to an engine. -/
inductive EngineEvent where
  | execute (source : String)
  | stop
  | sleep (milliseconds : Nat)
  | device (d : DeviceEvent)
  /-- An answer to the question that is open, nil to dismiss it. -/
  | reply (text : Option String)
deriving DecidableEq, Repr, Inhabited

namespace Engine

/-- What an event does at once. The clock moves only in a sleep. -/
def apply (e : Engine) : EngineEvent → Engine
  | .execute source => e.moveOr (.execute source)
  | .stop => e.moveOr .stop
  | .sleep milliseconds => advanceTo patience (e.now + milliseconds * millisecond) e
  | .device d => e.moveOr (.device d)
  | .reply text =>
    match e.asked? with
    | some order => e.moveOr (.answer order text)
    | none => e

/-- An event, and all that can happen after it without the clock. -/
def handle (e : Engine) (event : EngineEvent) : Engine :=
  let e := e.apply event
  advanceTo patience e.now e

end Engine

end Sketch
