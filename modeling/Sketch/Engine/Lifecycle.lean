import Sketch.Compile
import Sketch.Engine.State
import Sketch.ErrorLine
import Sketch.Machine.Run

/-!
The life of a run: it opens with its top level and `setup`, then its frames follow one another, and it ends by itself,
by a failure, or by being torn down. A run that is torn down while it is paused only finds out when its pause is over.
-/

namespace Sketch

/-- Nanoseconds in a millisecond. -/
def millisecond : Nat := 1000000

/-- The first whole millisecond that is not before a time. The clock strikes only then. -/
def nextMillisecond (t : Nat) : Nat := (t + (millisecond - 1)) / millisecond * millisecond

/-- When the frame after one is due. One that starts late by more than five milliseconds shifts all that follow. -/
def nextDue (period due now : Nat) : Nat :=
  if due + 5 * millisecond < now then now + period else due + period

/-- The console line that echoes an answer. -/
def echo : Option String → Message
  | some text => .plain .info s!"Input: {text}"
  | none => .plain .warning "Input cancelled"

/-- The value of an answer in the sketch. -/
def replyValue : Option String → Value
  | some text => .str text
  | none => .nil

/-- What the display receives when a sketch pauses. -/
def Pause.events : Pause → Array HostEvent
  | .delay _ => #[.present]
  | .prompt text => #[.present, .prompt text]

/-- How a stage of a run ends. Only a run that was cancelled is stopped, and it is stopped at a pause. -/
inductive Ending where
  | well
  | failed (f : Failure)
  | stopped
deriving DecidableEq, Repr, Inhabited

namespace Machine

/-- A frame begins: no button was hit yet, and the devices are read once. -/
def beginFrame (m : Machine) (frame : FrameInput) : Machine :=
  let canvas := { m.world.canvas with frame, widgets := m.world.canvas.widgets.clearClicks }
  { m with world := { m.world with canvas } }

/-- A frame is over: the pointer moves on, and the frame counts. -/
def endFrame (m : Machine) (mouse : Point) : Machine :=
  let c := m.world.canvas
  let canvas := { c with frame := c.frame.advance mouse, frameCount := c.frameCount + 1 }
  { m with world := { m.world with canvas } }

end Machine

namespace Run

/-- Cancels a run. Frames are dropped where they stand; an opening is left to find out by itself. -/
def tearDown (r : Run) : Run :=
  { r with cancelled := true, phase := if r.phase.isLooping then .ended else r.phase }

/-- When a run can go on by itself, if it can. A pause is over at once when the run is cancelled. -/
def wake? (r : Run) : Option Nat :=
  match r.phase with
  | .waiting _ wait =>
    if r.cancelled then some 0
    else
      match wait with
      | .time deadline => some deadline
      | .reply (some _) => some 0
      | .reply none => none
  | .running _ | .scheduled _ => some 0
  | .resting _ due => some (nextMillisecond due)
  | .crashed | .ended => none

end Run

namespace Engine

/-- Ends the current run, wherever it stands. -/
def teardown (e : Engine) : Engine :=
  let e := { e with status := .idle }
  match e.current with
  | some order => { e with runs := e.runs.modify order (Option.map Run.tearDown) }
  | none => e

/-- Keeps the run of an order as it stands now, and hands over what it sent. -/
def keep (e : Engine) (order : Nat) (r : Run) (m : Machine) (phase : Phase) : Engine :=
  (e.hand order m.sent).setRun order { r with machine := { m with sent := #[] }, phase }

/-- Reports a failure. Without a line of its own it points at the line that its text hints at. -/
def report (e : Engine) (order : Nat) (source : String) (f : Failure) : Engine :=
  let line :=
    if f.line = 0 then
      match ErrorLine.locate f.message f.stack source e.config.wrapperOffset with
      | .ok line => line
      | .error _ => none
    else some f.line
  e.put (.notice order (.failed f line))

/-- The opening is over. A cancelled run leaves status and console to those who cancelled it. -/
def opened (e : Engine) (order : Nat) (r : Run) (m : Machine) (ending : Ending) : Engine :=
  if r.cancelled then (e.keep order r m .ended).put (.completed order .ok)
  else
    match ending, r.frameFunction with
    | .failed f, _ =>
      let e := ((e.keep order r m .ended).hand order #[.present]).report order r.source f
      { e with status := .idle }.put (.completed order (.failed f))
    | .well, some function =>
      let e := (e.keep order r m (.scheduled function)).hand order #[.present]
      ({ e with status := .looping }.put (.notice order .started)).put (.completed order .ok)
    | .well, none =>
      let e := (e.keep order r m .ended).hand order #[.present]
      ({ e with status := .idle }.put (.notice order .finished)).put (.completed order .ok)
    | .stopped, _ => (e.keep order r m .ended).put (.completed order .ok)

/-- A frame is over. What it drew is shown in any case. -/
def ticked (e : Engine) (order : Nat) (r : Run) (ticker : Ticker) (next : Nat) (m : Machine) :
    Ending → Engine
  | .well =>
    (e.keep order r (m.endFrame e.devices.mouse) (.resting ticker next)).hand order #[.present]
  | .failed f =>
    let e := (e.keep order r m .ended).hand order #[.present]
    if r.cancelled then e else { e.report order r.source f with status := .idle }
  | .stopped => (e.keep order r m .ended).hand order #[.present]

def closed (e : Engine) (order : Nat) (r : Run) (stage : Stage) (m : Machine) (ending : Ending) : Engine :=
  match stage with
  | .opening => e.opened order r m ending
  | .frame ticker next => e.ticked order r ticker next m ending

/-- What a pause waits for. An answer that stands ready is taken when the question is asked. -/
def await (e : Engine) : Pause → Wait × Engine
  | .delay n => (.time (nextMillisecond (e.now + n)), e)
  | .prompt _ =>
    match e.answers with
    | .ready [] => (.reply (some none), e)
    | .ready (reply :: rest) => (.reply (some reply), { e with answers := .ready rest })
    | .live => (.reply none, e)

/-- A stage of a run came to a halt. A cancelled run does not pause any more. -/
def halted (e : Engine) (order : Nat) (r : Run) (stage : Stage) : Step → Engine
  | .next m => e.keep order r m (.running stage)
  | .paused p m =>
    if r.cancelled then e.closed order r stage m.abandon .stopped
    else
      let (wait, e) := e.await p
      (e.keep order r m (.waiting stage wait)).hand order p.events
  | .finished m => e.closed order r stage m .well
  | .failed f m => e.closed order r stage m (.failed f)
  | .crashed m =>
    let e := e.keep order r m .crashed
    match stage with
    | .opening => e.put (.completed order .crashed)
    | .frame .. => e

/-- Goes on after a pause, unless the run was cancelled meanwhile. -/
def resume (e : Engine) (order : Nat) (r : Run) (stage : Stage) (wait : Wait) : Engine :=
  if r.cancelled then e.closed order r stage r.machine.abandon .stopped
  else
    match wait with
    | .time _ => e.setRun order { r with machine := r.machine.resume .nil, phase := .running stage }
    | .reply (some reply) =>
      (e.hand order #[.message (echo reply)]).setRun order
        { r with machine := r.machine.resume (replyValue reply), phase := .running stage }
    | .reply none => e

/-- Starts to measure the time between frames. Without a usable time there will be none. -/
def schedule (e : Engine) (order : Nat) (r : Run) (function : String) : Engine :=
  match e.config.framePeriod? with
  | none | some 0 => e.setRun order { r with phase := .crashed }
  | some period => e.setRun order { r with phase := .resting ⟨function, period⟩ e.now }

/-- Starts a frame that was due at `due`. -/
def startFrame (e : Engine) (order : Nat) (r : Run) (ticker : Ticker) (due : Nat) : Engine :=
  let (frame, devices) := e.devices.snapshot r.machine.world.canvas.frame
  { e with devices }.setRun order
    { r with
      machine := (r.machine.beginFrame frame).call ticker.function
      phase := .running (.frame ticker (nextDue ticker.period due e.now)) }

/-- Goes on with a run. -/
def goOn (e : Engine) (order : Nat) (r : Run) : Engine :=
  match r.phase with
  | .waiting stage wait => e.resume order r stage wait
  | .running stage => e.halted order r stage (r.machine.run r.script Machine.patience)
  | .scheduled function => e.schedule order r function
  | .resting ticker due => e.startFrame order r ticker due
  | .crashed | .ended => e

/-- Makes room for a new order, and gives the canvas to start with. -/
def clear (e : Engine) : Canvas × Engine :=
  let order := e.runs.length
  let e := e.teardown.put (.notice order .running)
  let devices := e.devices.discardClicks
  let (events, canvas) := (Canvas.fresh e.config devices.mouse).takeOutbox
  (canvas, { e with devices }.hand order events.toArray)

/-- Starts a sketch in place of the current one. -/
def execute (e : Engine) (source : String) : Engine :=
  let order := e.runs.length
  let (canvas, e) := e.clear
  match compile source with
  | .error errors =>
    let e := (e.put (.notice order (.rejected errors))).put (.completed order (.rejected errors))
    { e with runs := e.runs ++ [none] }
  | .ok (program, warnings) =>
    let e := e.put (.notice order (.warned warnings))
    let script := Script.ofProgram program e.config.maxCallDepth
    let r : Run :=
      { source, script, frameFunction := program.frameFunction?, machine := .start script canvas
        phase := .running .opening, cancelled := false }
    { e with runs := e.runs ++ [some r], current := some order, status := .executing }

/-- Stops the current run. It is silent if there is nothing to stop. -/
def stop (e : Engine) : Engine :=
  if e.status = .idle then e.teardown else e.teardown.put (.notice (e.runs.length - 1) .stopped)

/-- Answers the question that the run of an order waits with, if it does. -/
def answer? (e : Engine) (order : Nat) (reply : Option String) : Option Engine := do
  let r ← e.run? order
  match r.phase with
  | .waiting stage (.reply none) =>
    some (e.setRun order { r with phase := .waiting stage (.reply (some reply)) })
  | _ => none

end Engine

end Sketch
