import Sketch.Engine

/-!
What comes of going on with a run, as one value: it gets a machine and a phase, and something comes out on account of
its order. `Engine.change?` says which change that is, and `Engine.goOn_eq` that no more is done.
-/

namespace Sketch

/-- What comes of going on with a run, in this order: events, a notice, and the outcome of the order. -/
structure Change where
  machine : Machine
  phase : Phase
  events : List HostEvent
  notice : Option Notice
  outcome : Option Outcome
  status : Status
  answers : Answers
  devices : Devices

/-- What comes out, on account of an order. -/
def Change.outputs (c : Change) (order : Nat) : List Output :=
  c.events.map (.host order) ++ (c.notice.toList.map (.notice order) ++ c.outcome.toList.map (.completed order))

/-- A run after a change. -/
def Run.changed (r : Run) (c : Change) : Run := { r with machine := c.machine, phase := c.phase }

/-- A failure as it is reported. Without a line of its own it points at one that its text hints at. -/
def Failure.notice (f : Failure) (source : String) (config : Config) : Notice :=
  .failed f <|
    if f.line = 0 then
      match ErrorLine.locate f.message f.stack source config.wrapperOffset with
      | .ok line => line
      | .error _ => none
    else some f.line

namespace Engine

/-- What came out of an engine so far, in order. -/
def log (e : Engine) : List Output := e.outputs.toList

section Log

variable (e : Engine) (order : Nat) (r : Run)

@[simp] theorem log_put (o : Output) : (e.put o).log = e.log ++ [o] := by simp [log, put]

@[simp] theorem log_hand (events : Array HostEvent) :
    (e.hand order events).log = e.log ++ events.toList.map (.host order) := by
  simp [log, hand]

@[simp] theorem log_setRun : (e.setRun order r).log = e.log := rfl

@[simp] theorem log_keep (m : Machine) (phase : Phase) :
    (e.keep order r m phase).log = e.log ++ m.sent.toList.map (.host order) := by
  rw [keep, log_setRun, log_hand]

@[simp] theorem log_withStatus (status : Status) : { e with status }.log = e.log := rfl

@[simp] theorem log_report (source : String) (f : Failure) :
    (e.report order source f).log = e.log ++ [.notice order (f.notice source e.config)] := log_put ..

end Log

/-- Makes a change to the run of an order. -/
def undergo (e : Engine) (order : Nat) (r : Run) (c : Change) : Engine :=
  { e with
    answers := c.answers
    devices := c.devices
    status := c.status
    runs := e.runs.set order (some (r.changed c))
    outputs := e.outputs ++ (c.outputs order).toArray }

@[simp] theorem log_undergo (e : Engine) (order : Nat) (r : Run) (c : Change) :
    (e.undergo order r c).log = e.log ++ c.outputs order := by
  simp [log, undergo]

/-- Where all else agrees, what came out tells whether a change was made. -/
theorem eq_undergo {e next : Engine} {order : Nat} {r : Run} {c : Change}
    (fields : next = { e.undergo order r c with outputs := next.outputs }) (log : next.log = e.log ++ c.outputs order) :
    next = e.undergo order r c := by
  have same : next.outputs = (e.undergo order r c).outputs := Array.toList_inj.mp (log.trans (log_undergo ..).symm)
  rw [fields, same]

section Changes

variable (e : Engine) (r : Run)

/-- A run goes on to a phase, and nothing comes out. -/
def moved (m : Machine) (phase : Phase) : Change := ⟨m, phase, [], none, none, e.status, e.answers, e.devices⟩

/-- A run is left in a phase. What it sent is handed over, with some more. -/
def left (m : Machine) (phase : Phase) (more : List HostEvent) : Change :=
  { e.moved { m with sent := #[] } phase with events := m.sent.toList ++ more }

/-- The opening of a run is over. -/
def opening (m : Machine) (ending : Ending) : Change :=
  if r.cancelled then { e.left m .ended [] with outcome := some .ok }
  else
    match ending, r.frameFunction with
    | .failed f, _ =>
      { e.left m .ended [.present] with
        notice := some (f.notice r.source e.config), outcome := some (.failed f), status := .idle }
    | .well, some function =>
      { e.left m (.scheduled function) [.present] with
        notice := some .started, outcome := some .ok, status := .looping }
    | .well, none =>
      { e.left m .ended [.present] with notice := some .finished, outcome := some .ok, status := .idle }
    | .stopped, _ => { e.left m .ended [] with outcome := some .ok }

/-- A frame of a run is over. -/
def ticking (ticker : Ticker) (next : Nat) (m : Machine) : Ending → Change
  | .well => e.left (m.endFrame e.devices.mouse) (.resting ticker next) [.present]
  | .failed f =>
    if r.cancelled then e.left m .ended [.present]
    else { e.left m .ended [.present] with notice := some (f.notice r.source e.config), status := .idle }
  | .stopped => e.left m .ended [.present]

def closing (stage : Stage) (m : Machine) (ending : Ending) : Change :=
  match stage with
  | .opening => e.opening r m ending
  | .frame ticker next => e.ticking r ticker next m ending

def halting (stage : Stage) : Step → Change
  | .next m => e.left m (.running stage) []
  | .paused p m =>
    if r.cancelled then e.closing r stage m.abandon .stopped
    else
      { e.left m (.waiting stage (e.await p).1) p.events.toList with answers := (e.await p).2.answers }
  | .finished m => e.closing r stage m .well
  | .failed f m => e.closing r stage m (.failed f)
  | .crashed m =>
    match stage with
    | .opening => { e.left m .crashed [] with outcome := some .crashed }
    | .frame .. => e.left m .crashed []

/-- A wait is over, if it is. -/
def resuming? (stage : Stage) : Wait → Option Change
  | .time _ => some (e.moved (r.machine.resume .nil) (.running stage))
  | .reply (some reply) =>
    some { e.moved (r.machine.resume (replyValue reply)) (.running stage) with events := [.message (echo reply)] }
  | .reply none => none

/-- The first frame of a run is due at once, or never. -/
def firstFrame (function : String) : Phase :=
  match e.config.framePeriod? with
  | none | some 0 => .crashed
  | some period => .resting ⟨function, period⟩ e.now

def beginning (ticker : Ticker) (due : Nat) : Change :=
  let (frame, devices) := e.devices.snapshot r.machine.world.canvas.frame
  { e.moved ((r.machine.beginFrame frame).call ticker.function)
    (.running (.frame ticker (nextDue ticker.period due e.now))) with devices }

/-- What comes of going on with a run, if it can go on. -/
def change? : Option Change :=
  match r.phase with
  | .waiting stage wait =>
    if r.cancelled then some (e.closing r stage r.machine.abandon .stopped) else e.resuming? r stage wait
  | .running stage => some (e.halting r stage (r.machine.run r.script Machine.patience))
  | .scheduled function => some (e.moved r.machine (e.firstFrame function))
  | .resting ticker due => some (e.beginning r ticker due)
  | .crashed | .ended => none

variable (order : Nat) (stage : Stage) (m : Machine) (ending : Ending)

theorem opened_eq : e.opened order r m ending = e.undergo order r (e.opening r m ending) := by
  have kept (phase : Phase) : ((e.keep order r m phase).hand order #[.present]).config = e.config := rfl
  rw [opened.eq_def, opening.eq_def]
  cases r.cancelled with
  | true => exact eq_undergo rfl (by simp [left, moved, Change.outputs])
  | false =>
    cases ending with
    | failed f => exact eq_undergo rfl (by simp [left, moved, Change.outputs, kept])
    | well => cases r.frameFunction <;> exact eq_undergo rfl (by simp [left, moved, Change.outputs])
    | stopped => exact eq_undergo rfl (by simp [left, moved, Change.outputs])

theorem ticked_eq (ticker : Ticker) (next : Nat) :
    e.ticked order r ticker next m ending = e.undergo order r (e.ticking r ticker next m ending) := by
  have kept (phase : Phase) : ((e.keep order r m phase).hand order #[.present]).config = e.config := rfl
  cases ending with
  | well | stopped => exact eq_undergo rfl (by simp [ticked, ticking, left, moved, Change.outputs])
  | failed f =>
    rw [ticked, ticking]
    cases r.cancelled <;> exact eq_undergo rfl (by simp [left, moved, Change.outputs, kept])

theorem closed_eq : e.closed order r stage m ending = e.undergo order r (e.closing r stage m ending) := by
  cases stage with
  | opening => exact opened_eq e r order m ending
  | frame ticker next => exact ticked_eq e r order m ending ticker next

/-- A stage that is over changes nothing of the machine but its world. -/
theorem closing_parts : (e.closing r stage m ending).devices = e.devices ∧
    ∃ world, (e.closing r stage m ending).machine = { m with world, sent := #[] } := by
  cases stage with
  | opening =>
    rw [closing, opening.eq_def]
    split
    · exact ⟨rfl, _, rfl⟩
    · split <;> exact ⟨rfl, _, rfl⟩
  | frame ticker next =>
    cases ending with
    | well | stopped => exact ⟨rfl, _, rfl⟩
    | failed f =>
      rw [closing, ticking]
      split <;> exact ⟨rfl, _, rfl⟩

/-- A stage that halts leaves the devices alone. -/
theorem halting_devices (halt : Step) : (e.halting r stage halt).devices = e.devices := by
  cases halt with
  | next => rfl
  | finished m => exact (closing_parts e r stage m .well).1
  | failed f m => exact (closing_parts e r stage m (.failed f)).1
  | crashed => cases stage <;> rfl
  | paused p m =>
    rw [halting]
    split
    · exact (closing_parts e r stage m.abandon .stopped).1
    · rfl

/-- A wait takes an answer at most. -/
theorem await_eq (p : Pause) : (e.await p).2 = { e with answers := (e.await p).2.answers } := by
  cases p with
  | delay => rfl
  | prompt =>
    rw [await]
    split <;> rfl

theorem halted_eq (halt : Step) : e.halted order r stage halt = e.undergo order r (e.halting r stage halt) := by
  cases halt with
  | next m => exact eq_undergo rfl (by simp [halted, halting, left, moved, Change.outputs])
  | finished m => exact closed_eq e r order stage m .well
  | failed f m => exact closed_eq e r order stage m (.failed f)
  | crashed m => cases stage <;> exact eq_undergo rfl (by simp [halted, halting, left, moved, Change.outputs])
  | paused p m =>
    rw [halted, halting]
    cases r.cancelled with
    | true => exact closed_eq e r order stage m.abandon .stopped
    | false =>
      simp only [Bool.false_eq_true, if_false]
      rw [await_eq]
      exact eq_undergo rfl (by simp [left, moved, Change.outputs]; rfl)

/-- Going on with a run is to make the change that comes of it. -/
theorem goOn_eq : e.goOn order r = (e.change? r).elim e (e.undergo order r) := by
  rw [goOn, change?]
  cases r.phase with
  | waiting stage wait =>
    dsimp only
    rw [resume.eq_def]
    split
    case isTrue => exact closed_eq e r order stage _ .stopped
    case isFalse =>
      cases wait with
      | time => exact eq_undergo rfl (by simp [moved, Change.outputs])
      | reply answer =>
        cases answer with
        | none => rfl
        | some reply => exact eq_undergo rfl (by simp [moved, Change.outputs])
  | running stage => exact halted_eq e r order stage _
  | scheduled function =>
    dsimp only
    have planned : e.schedule order r function = e.setRun order { r with phase := e.firstFrame function } := by
      rw [schedule.eq_def, firstFrame]
      rcases e.config.framePeriod? with _ | _ | period <;> rfl
    rw [planned]
    exact eq_undergo rfl (by simp [moved, Change.outputs])
  | resting ticker due => exact eq_undergo rfl (by simp [beginning, moved, Change.outputs]; rfl)
  | crashed | ended => rfl

/-- The ways in which a run can go on. -/
inductive Changes : Change → Prop where
  | stopped {stage : Stage} {wait : Wait} (waits : r.phase = .waiting stage wait) (gone : r.cancelled = true) :
      Changes (e.closing r stage r.machine.abandon .stopped)
  | resumed {stage : Stage} {wait : Wait} {answer : Value} {events : List HostEvent}
      (waits : r.phase = .waiting stage wait)
      (alive : r.cancelled = false)
      (resumes : e.resuming? r stage wait = some { e.moved (r.machine.resume answer) (.running stage) with events }) :
      Changes { e.moved (r.machine.resume answer) (.running stage) with events }
  | halted {stage : Stage} (works : r.phase = .running stage) :
      Changes (e.halting r stage (r.machine.run r.script Machine.patience))
  | scheduled {function : String} (waits : r.phase = .scheduled function) :
      Changes (e.moved r.machine (e.firstFrame function))
  | begins {ticker : Ticker} {due : Nat} (rests : r.phase = .resting ticker due) : Changes (e.beginning r ticker due)

variable {e r}

theorem changes_of_change? {c : Change} (changes : e.change? r = some c) : Changes e r c := by
  rw [change?] at changes
  cases phase : r.phase with
  | waiting stage wait =>
    simp only [phase] at changes
    split at changes
    case isTrue gone =>
      cases changes
      exact .stopped phase gone
    case isFalse alive =>
      match wait with
      | .time _ | .reply (some _) =>
        cases changes
        exact .resumed phase (by simpa using alive) rfl
  | running | scheduled | resting =>
    simp only [phase] at changes
    cases changes
    constructor
    exact phase
  | crashed | ended => simp [phase] at changes

/-- A run that can go on changes something. -/
theorem goOn_of_wakes {time : Nat} (wakes : r.wake? = some time) :
    ∃ c, e.change? r = some c ∧ e.goOn order r = e.undergo order r c := by
  have changes : ∃ c, e.change? r = some c := by
    rw [Run.wake?] at wakes
    rw [change?]
    cases phase : r.phase with
    | waiting stage wait =>
      dsimp only
      split
      case isTrue => exact ⟨_, rfl⟩
      case isFalse alive =>
        match wait with
        | .time _ | .reply (some _) => exact ⟨_, rfl⟩
        | .reply none => simp [phase, alive] at wakes
    | running | scheduled | resting => exact ⟨_, rfl⟩
    | crashed | ended => simp [phase] at wakes
  obtain ⟨c, changes⟩ := changes
  refine ⟨c, changes, ?_⟩
  rw [goOn_eq, changes]
  rfl

end Changes

end Engine

end Sketch
