import Mathlib.Data.List.Forall2
import Sketch.Proofs.Engine.Settling
import Sketch.Proofs.Lint.Expansion

/-!
Engines that cannot be told apart. If the machines of their runs behave alike, the engines do the same at the same
times, and what they are asked and told has the same effect on both.
-/

namespace Sketch

/-! ### What comes out -/

/-- Outcomes for the same reasons. The places they name may differ. -/
inductive Outcome.Alike : Outcome → Outcome → Prop
  | ok : Alike .ok .ok
  | failed {f f' : Failure} (alike : f.Alike f') : Alike (.failed f) (.failed f')
  | rejected {errors errors' : List Diagnostic} (alike : Lint.Alike errors errors') :
      Alike (.rejected errors) (.rejected errors')
  | crashed : Alike .crashed .crashed

/-- Notices of the same. Places may differ, and the order in which faults are listed. -/
inductive Notice.Alike : Notice → Notice → Prop
  | same (n : Notice) : Alike n n
  | warned {warnings warnings' : List Diagnostic} (alike : Lint.Alike warnings warnings') :
      Alike (.warned warnings) (.warned warnings')
  | rejected {errors errors' : List Diagnostic} (alike : Lint.Alike errors errors') :
      Alike (.rejected errors) (.rejected errors')
  | failed {f f' : Failure} (alike : f.Alike f') (line line' : Option Nat) :
      Alike (.failed f line) (.failed f' line')

/-- What comes out is the same, but for places. What a sketch does itself has none. -/
inductive Output.Alike : Output → Output → Prop
  | host (order : Nat) (event : HostEvent) : Alike (.host order event) (.host order event)
  | notice (order : Nat) {n n' : Notice} (alike : n.Alike n') : Alike (.notice order n) (.notice order n')
  | completed (order : Nat) {outcome outcome' : Outcome} (alike : outcome.Alike outcome') :
      Alike (.completed order outcome) (.completed order outcome')

/-- Ends of the same kind. -/
inductive Ending.Alike : Ending → Ending → Prop
  | well : Alike .well .well
  | failed {f f' : Failure} (alike : f.Alike f') : Alike (.failed f) (.failed f')
  | stopped : Alike .stopped .stopped

theorem Failure.Alike.symm {f f' : Failure} (alike : f.Alike f') : f'.Alike f := ⟨alike.1.symm, alike.2.symm⟩

theorem Output.Alike.symm {o o' : Output} (alike : o.Alike o') : o'.Alike o := by
  cases alike with
  | host order event => exact .host order event
  | notice order alike =>
    apply Output.Alike.notice
    cases alike with
    | same => exact .same _
    | warned alike => exact .warned alike.symm
    | rejected alike => exact .rejected alike.symm
    | failed alike line line' => exact .failed alike.symm line' line
  | completed order alike =>
    apply Output.Alike.completed
    cases alike with
    | ok => exact .ok
    | failed alike => exact .failed alike.symm
    | rejected alike => exact .rejected alike.symm
    | crashed => exact .crashed

/-! ### Runs -/

/-- Machines that go on alike where a run stands. -/
def Phase.Fits (R : Machine → Machine → Prop) : Phase → Machine → Machine → Prop
  | .running _, m, m' => R m m'
  | .waiting _ _, m, m' => ∀ told v, R ({ m with sent := told }.resume v) ({ m' with sent := told }.resume v)
  | .scheduled _, _, _ | .resting _ _, _, _ | .crashed, _, _ | .ended, _, _ => True

/-- Runs that stand at the same point and show the same, and go on alike. -/
structure Run.Alike (r r' : Run) : Prop where
  frameFunction : r'.frameFunction = r.frameFunction
  phase : r'.phase = r.phase
  cancelled : r'.cancelled = r.cancelled
  outside : r.machine.outside = r'.machine.outside
  related : ∃ R, Bisimulation r.script r'.script R ∧ r.phase.Fits R r.machine r'.machine

namespace Run.Alike

variable {r r' : Run}

theorem refl (r : Run) : r.Alike r where
  frameFunction := rfl
  phase := rfl
  cancelled := rfl
  outside := rfl
  related := by
    refine ⟨_, Bisimulation.refl r.script, ?_⟩
    cases r.phase with
    | running => exact rfl
    | waiting => exact fun _ _ => rfl
    | scheduled | resting | crashed | ended => exact trivial

theorem symm (alike : r.Alike r') : r'.Alike r where
  frameFunction := alike.frameFunction.symm
  phase := alike.phase.symm
  cancelled := alike.cancelled.symm
  outside := alike.outside.symm
  related := by
    obtain ⟨R, bisimulation, fits⟩ := alike.related
    refine ⟨_, bisimulation.flip, ?_⟩
    rw [alike.phase]
    cases phase : r.phase with
    | running | waiting =>
      rw [phase] at fits
      exact fits
    | scheduled | resting | crashed | ended => exact trivial

variable {m m' : Machine}

theorem quiet (same : m.outside = m'.outside) : { m with sent := #[] }.outside = { m' with sent := #[] }.outside :=
  congrArg (fun outside => (outside.1, outside.2.1, #[])) same

/-- The runs after they came to other machines that show the same. -/
theorem moved (alike : r.Alike r') (same : m.outside = m'.outside) (phase : Phase)
    (related : ∃ R, Bisimulation r.script r'.script R ∧ phase.Fits R m m') :
    Run.Alike { r with machine := m, phase } { r' with machine := m', phase } :=
  { alike with phase := rfl, outside := same, related }

/-- The runs at a phase in which nothing is left to do. -/
theorem rested (alike : r.Alike r') (same : m.outside = m'.outside) (phase : Phase) (fits : ∀ R, phase.Fits R m m') :
    Run.Alike { r with machine := m, phase } { r' with machine := m', phase } := by
  obtain ⟨R, bisimulation, -⟩ := alike.related
  exact alike.moved same phase ⟨R, bisimulation, fits R⟩

theorem tearDown (alike : r.Alike r') : r.tearDown.Alike r'.tearDown := by
  obtain ⟨R, bisimulation, fits⟩ := alike.related
  refine { alike with phase := ?_, cancelled := rfl, related := ⟨R, bisimulation, ?_⟩ }
  · rw [Run.tearDown, Run.tearDown, alike.phase]
  · rw [Run.tearDown]
    cases looping : r.phase.isLooping with
    | true => exact trivial
    | false => exact fits

theorem wake? (alike : r.Alike r') : r'.wake? = r.wake? := by
  rw [Run.wake?, Run.wake?, alike.phase, alike.cancelled]

end Run.Alike

namespace Engine

/-- Engines in the same surroundings whose runs and outputs are alike. -/
structure Alike (e e' : Engine) : Prop where
  config : e'.config = e.config
  answers : e'.answers = e.answers
  devices : e'.devices = e.devices
  status : e'.status = e.status
  current : e'.current = e.current
  now : e'.now = e.now
  length : e'.runs.length = e.runs.length
  runs : ∀ order, Option.Rel Run.Alike (e.run? order) (e'.run? order)
  log : List.Forall₂ Output.Alike e.log e'.log

namespace Alike

theorem refl (e : Engine) : Alike e e where
  config := rfl
  answers := rfl
  devices := rfl
  status := rfl
  current := rfl
  now := rfl
  length := rfl
  runs order := by
    cases e.run? order with
    | none => exact .none
    | some r => exact .some (.refl r)
  log := by
    apply List.forall₂_same.mpr
    intro o _
    cases o with
    | host order event => exact .host order event
    | notice order n => exact .notice order (.same n)
    | completed order outcome =>
      apply Output.Alike.completed
      cases outcome with
      | ok => exact .ok
      | failed f => exact .failed ⟨rfl, rfl⟩
      | rejected errors => exact .rejected (.refl errors)
      | crashed => exact .crashed

variable {e e' : Engine} (alike : Alike e e')

include alike

/-- An order has a run in both engines, or in none. -/
theorem runs_cases (order : Nat) : (e.run? order = none ∧ e'.run? order = none) ∨
    ∃ r r', e.run? order = some r ∧ e'.run? order = some r' ∧ r.Alike r' := by
  have same := alike.runs order
  generalize e.run? order = slot at same
  generalize e'.run? order = slot' at same
  cases same with
  | none => exact .inl ⟨rfl, rfl⟩
  | some same => exact .inr ⟨_, _, rfl, rfl, same⟩

theorem symm : Alike e' e where
  config := alike.config.symm
  answers := alike.answers.symm
  devices := alike.devices.symm
  status := alike.status.symm
  current := alike.current.symm
  now := alike.now.symm
  length := alike.length.symm
  runs order := by
    rcases alike.runs_cases order with ⟨missing, missing'⟩ | ⟨r, r', found, found', same⟩
    · rw [missing, missing']
      exact .none
    · rw [found, found']
      exact .some same.symm
  log := (alike.log.imp fun _ _ same => same.symm).flip

variable {order : Nat} {r r' : Run}

theorem run? (found : e.run? order = some r) : ∃ r', e'.run? order = some r' ∧ r.Alike r' := by
  rcases alike.runs_cases order with ⟨missing, -⟩ | ⟨_, r', here, found', same⟩
  · cases found.symm.trans missing
  · cases found.symm.trans here
    exact ⟨r', found', same⟩

/-- The latest runs show the same. -/
theorem currentRun? : e'.currentRun?.map (·.machine.outside) = e.currentRun?.map (·.machine.outside) := by
  rw [Engine.currentRun?, Engine.currentRun?, alike.current]
  cases e.current with
  | none => rfl
  | some order =>
    rw [Option.bind_some, Option.bind_some]
    rcases alike.runs_cases order with ⟨missing, missing'⟩ | ⟨r, r', found, found', same⟩
    · rw [missing, missing']
    · rw [found, found']
      exact congrArg some same.outside.symm

theorem global? (name : String) : e'.global? name = e.global? name := by
  have same := congrArg (Option.bind · fun outside => outside.1.get? name) alike.currentRun?
  simp only [Option.bind_map] at same
  exact same

/-! #### One change at a time -/

theorem withStatus (status : Status) : Alike { e with status } { e' with status } :=
  { alike with status := rfl }

theorem withAnswers (answers : Answers) : Alike { e with answers } { e' with answers } :=
  { alike with answers := rfl }

theorem withDevices (devices : Devices) : Alike { e with devices } { e' with devices } :=
  { alike with devices := rfl }

theorem withCurrent (current : Option Nat) : Alike { e with current } { e' with current } :=
  { alike with current := rfl }

theorem clock (time : Nat) : Alike { e with now := max e.now time } { e' with now := max e'.now time } :=
  { alike with now := congrArg (max · time) alike.now }

theorem put {o o' : Output} (same : o.Alike o') : Alike (e.put o) (e'.put o') := by
  refine { alike with log := ?_ }
  rw [log_put, log_put]
  exact List.rel_append alike.log (.cons same .nil)

theorem hand (order : Nat) (events : Array HostEvent) : Alike (e.hand order events) (e'.hand order events) := by
  refine { alike with log := ?_ }
  rw [log_hand, log_hand]
  apply List.rel_append alike.log
  apply List.forall₂_same.mpr
  intro o mem
  obtain ⟨event, -, rfl⟩ := List.mem_map.mp mem
  exact .host order event

theorem setRun (inside : order < e.runs.length) (same : r.Alike r') :
    Alike (e.setRun order r) (e'.setRun order r') := by
  refine { alike with length := ?_, runs := ?_ }
  · rw [length_setRun, length_setRun, alike.length]
  · intro k
    rw [run?_setRun inside, run?_setRun (alike.length ▸ inside)]
    split
    · exact .some same
    · exact alike.runs k

theorem keep (inside : order < e.runs.length) {m m' : Machine} {phase : Phase} (sent : m.sent = m'.sent)
    (same : Run.Alike { r with machine := { m with sent := #[] }, phase }
      { r' with machine := { m' with sent := #[] }, phase }) :
    Alike (e.keep order r m phase) (e'.keep order r' m' phase) := by
  rw [Engine.keep, Engine.keep, ← sent]
  exact (alike.hand order m.sent).setRun inside same

theorem report (order : Nat) (source source' : String) {f f' : Failure} (same : f.Alike f') :
    Alike (e.report order source f) (e'.report order source' f') := by
  rw [Engine.report, Engine.report]
  exact alike.put (.notice order (.failed same _ _))

/-! #### The life of a run -/

section Lives

variable {order : Nat} (inside : order < e.runs.length) {r r' : Run} (same : r.Alike r') {m m' : Machine}
  (outside : m.outside = m'.outside)

include inside same outside

/-- The runs are left where nothing is to be done. -/
theorem leave (phase : Phase) (fits : ∀ R, phase.Fits R { m with sent := #[] } { m' with sent := #[] }) :
    Alike (e.keep order r m phase) (e'.keep order r' m' phase) :=
  alike.keep inside (congrArg (·.2.2) outside) (same.rested (Run.Alike.quiet outside) phase fits)

variable {ending ending' : Ending}

/-- An opening ends with the same effect. -/
theorem opened (ends : ending.Alike ending') : Alike (e.opened order r m ending) (e'.opened order r' m' ending') := by
  have left := alike.leave inside same outside .ended fun _ => trivial
  have shown := left.hand order #[.present]
  have completed := left.put (.completed order .ok)
  unfold Engine.opened
  rw [same.cancelled, same.frameFunction]
  cases r.cancelled with
  | true => exact completed
  | false =>
    cases ends with
    | failed failures =>
      exact ((shown.report order r.source r'.source failures).withStatus .idle).put
        (.completed order (.failed failures))
    | stopped => exact completed
    | well =>
      cases r.frameFunction with
      | some function =>
        have scheduled := alike.leave inside same outside (.scheduled function) fun _ => trivial
        exact (((scheduled.hand order #[.present]).withStatus .looping).put
          (.notice order (.same .started))).put (.completed order .ok)
      | none =>
        exact ((shown.withStatus .idle).put (.notice order (.same .finished))).put (.completed order .ok)

/-- A frame ends with the same effect. -/
theorem ticked (ticker : Ticker) (next : Nat) (ends : ending.Alike ending') :
    Alike (e.ticked order r ticker next m ending) (e'.ticked order r' ticker next m' ending') := by
  have shown := (alike.leave inside same outside .ended fun _ => trivial).hand order #[.present]
  cases ends with
  | well =>
    have ended : (m.endFrame e.devices.mouse).outside = (m'.endFrame e.devices.mouse).outside := by
      obtain ⟨control, conts, frames, globals, world, sent⟩ := m
      obtain ⟨control', conts', frames', globals', world', sent'⟩ := m'
      cases outside
      rfl
    rw [Engine.ticked, Engine.ticked, alike.devices]
    exact (alike.leave inside same ended (.resting ticker next) fun _ => trivial).hand order #[.present]
  | failed failures =>
    rw [Engine.ticked, Engine.ticked, same.cancelled]
    cases r.cancelled with
    | true => exact shown
    | false => exact (shown.report order r.source r'.source failures).withStatus .idle
  | stopped => exact shown

theorem closed (stage : Stage) (ends : ending.Alike ending') :
    Alike (e.closed order r stage m ending) (e'.closed order r' stage m' ending') := by
  cases stage with
  | opening => exact alike.opened inside same outside ends
  | frame ticker next => exact alike.ticked inside same outside ticker next ends

end Lives

/-- A pause waits for the same. -/
theorem await (p : Pause) : (e'.await p).1 = (e.await p).1 ∧ Alike (e.await p).2 (e'.await p).2 := by
  cases p with
  | delay n =>
    rw [Engine.await, Engine.await, alike.now]
    exact ⟨rfl, alike⟩
  | prompt text =>
    rw [Engine.await, Engine.await, alike.answers]
    cases e.answers with
    | live => exact ⟨rfl, alike⟩
    | ready replies =>
      cases replies with
      | nil => exact ⟨rfl, alike⟩
      | cons reply rest => exact ⟨rfl, alike.withAnswers _⟩

section Lives

variable {order : Nat} (inside : order < e.runs.length) {r r' : Run} (same : r.Alike r')

include inside same

/-- Halts that are alike have the same effect. -/
theorem halted (stage : Stage) {R : Machine → Machine → Prop} (bisimulation : Bisimulation r.script r'.script R)
    {h h' : Step} (halts : h.Alike R h') : Alike (e.halted order r stage h) (e'.halted order r' stage h') := by
  cases halts with
  | finished outside => exact alike.closed inside same outside stage .well
  | failed failures outside => exact alike.closed inside same outside stage (.failed failures)
  | crashed outside =>
    have left := alike.leave inside same outside .crashed fun _ => trivial
    cases stage with
    | opening => exact left.put (.completed order .crashed)
    | frame => exact left
  | @paused p m m' outside goesOn =>
    rw [Engine.halted, Engine.halted, same.cancelled]
    cases r.cancelled with
    | true =>
      have abandoned : m.abandon.outside = m'.abandon.outside := by
        rw [Machine.abandon_eq, Machine.abandon_eq]
        exact outside
      exact alike.closed inside same abandoned stage .stopped
    | false =>
      obtain ⟨wait, awaited⟩ := alike.await p
      have stillInside : order < (e.await p).2.runs.length := (congrArg (·.runs.length) (await_eq e p)) ▸ inside
      have waits := same.moved (Run.Alike.quiet outside) (.waiting stage (e.await p).1) ⟨R, bisimulation, goesOn⟩
      have kept := (awaited.keep stillInside (congrArg (·.2.2) outside) waits).hand order p.events
      simp only [wait]
      exact kept

/-- A pause ends with the same effect. -/
theorem resume {stage : Stage} {wait : Wait} (phase : r.phase = .waiting stage wait) :
    Alike (e.resume order r stage wait) (e'.resume order r' stage wait) := by
  obtain ⟨R, bisimulation, fits⟩ := same.related
  rw [phase] at fits
  have goesOn (v : Value) : Run.Alike { r with machine := r.machine.resume v, phase := .running stage }
      { r' with machine := r'.machine.resume v, phase := .running stage } := by
    have sent : r'.machine.sent = r.machine.sent := (congrArg (·.2.2) same.outside).symm
    have related := fits r.machine.sent v
    rw [← sent] at related
    nth_rewrite 1 [sent] at related
    exact same.moved (bisimulation.outside related) (.running stage) ⟨R, bisimulation, related⟩
  unfold Engine.resume
  by_cases gone : r.cancelled = true
  · have abandoned : r.machine.abandon.outside = r'.machine.abandon.outside := by
      rw [Machine.abandon_eq, Machine.abandon_eq]
      exact same.outside
    rw [if_pos gone, if_pos (same.cancelled.trans gone)]
    exact alike.closed inside same abandoned stage .stopped
  · rw [if_neg gone, if_neg (same.cancelled ▸ gone)]
    cases wait with
    | time => exact alike.setRun inside (goesOn .nil)
    | reply answer =>
      cases answer with
      | none => exact alike
      | some reply => exact (alike.hand order #[.message (echo reply)]).setRun inside (goesOn (replyValue reply))

theorem schedule (function : String) : Alike (e.schedule order r function) (e'.schedule order r' function) := by
  rw [Engine.schedule, Engine.schedule, alike.config, alike.now]
  cases e.config.framePeriod? with
  | none => exact alike.setRun inside (same.rested same.outside .crashed fun _ => trivial)
  | some period =>
    cases period with
    | zero => exact alike.setRun inside (same.rested same.outside .crashed fun _ => trivial)
    | succ period => exact alike.setRun inside (same.rested same.outside (.resting _ _) fun _ => trivial)

/-- A frame starts alike. -/
theorem startFrame (idle : r.machine.frames = []) (idle' : r'.machine.frames = []) (ticker : Ticker) (due : Nat) :
    Alike (e.startFrame order r ticker due) (e'.startFrame order r' ticker due) := by
  obtain ⟨R, bisimulation, -⟩ := same.related
  have world : r'.machine.world = r.machine.world := (congrArg (·.2.1) same.outside).symm
  have begun (frame : FrameInput) : (r.machine.beginFrame frame).outside = (r'.machine.beginFrame frame).outside := by
    have outside := same.outside
    generalize r.machine = m, r'.machine = m' at outside
    obtain ⟨control, conts, frames, globals, world, sent⟩ := m
    obtain ⟨control', conts', frames', globals', world', sent'⟩ := m'
    cases outside
    rfl
  have next : nextDue ticker.period due e'.now = nextDue ticker.period due e.now := by rw [alike.now]
  rw [Engine.startFrame, Engine.startFrame, alike.devices, next, world]
  obtain ⟨frame, devices⟩ := e.devices.snapshot r.machine.world.canvas.frame
  have related := bisimulation.calls (begun frame) idle idle' ticker.function
  exact (alike.withDevices devices).setRun inside
    (same.moved (bisimulation.outside related) (.running _) ⟨R, bisimulation, related⟩)

/-- Runs that are not in the middle of their work go on alike. -/
theorem goOn (halts : r.phase.isRunning = false) (kept : r.Kept) (kept' : r'.Kept) :
    Alike (e.goOn order r) (e'.goOn order r') := by
  have idle := kept.level
  have idle' := kept'.level
  unfold Engine.goOn
  rw [Run.Level] at idle idle'
  rw [same.phase] at idle' ⊢
  cases phase : r.phase with
  | running =>
    rw [phase] at halts
    cases halts
  | waiting stage wait => exact alike.resume inside same phase
  | scheduled function => exact alike.schedule inside same function
  | resting ticker due =>
    rw [phase] at idle idle'
    exact alike.startFrame inside same idle idle' ticker due
  | crashed | ended => exact alike

end Lives

/-! #### What goes on by itself -/

theorem busy : e'.busy = e.busy := by
  have of_busy {e e' : Engine} (alike : Alike e e') (busy : e.busy = true) : e'.busy = true := by
    obtain ⟨order, r, found, running⟩ := (busy_iff e).mp busy
    obtain ⟨r', found', same⟩ := alike.run? found
    exact (busy_iff e').mpr ⟨order, r', found', by rw [same.phase]; exact running⟩
  rw [Bool.eq_iff_iff]
  exact ⟨of_busy alike.symm, of_busy alike⟩

theorem wake? (order : Nat) : e'.wake? order = e.wake? order := by
  rw [Engine.wake?, Engine.wake?]
  rcases alike.runs_cases order with ⟨missing, missing'⟩ | ⟨r, r', found, found', same⟩
  · rw [missing, missing']
  · rw [found, found']
    exact same.wake?

/-- In engines that are not at work, the same happens next. -/
theorem next? (sound : Sound e) (sound' : Sound e') (free : e.busy = false) : e'.next? = e.next? := by
  have free' : e'.busy = false := alike.busy.trans free
  have same (time order : Nat) : e'.next? = some (time, order) ↔ e.next? = some (time, order) := by
    rw [sound.next?_eq_some_iff free, sound'.next?_eq_some_iff free']
    simp only [alike.wake?]
  apply Option.ext
  rintro ⟨time, order⟩
  exact same time order

theorem tick? (sound : Sound e) (sound' : Sound e') (free : e.busy = false) {target : Nat} {next : Engine}
    (tick : e.tick? target = some next) : ∃ next', e'.tick? target = some next' ∧ Alike next next' := by
  obtain ⟨order, time, r, first, intime, found, -, rfl⟩ := sound.tick?_eq_some tick
  have first' : e'.next? = some (time, order) := (alike.next? sound sound' free).trans first
  obtain ⟨next', tick'⟩ := tick?_isSome first' intime
  obtain ⟨_, _, r', first'', -, found', -, rfl⟩ := sound'.tick?_eq_some tick'
  cases first'.symm.trans first''
  obtain ⟨_, present, same⟩ := alike.run? found
  cases found'.symm.trans present
  exact ⟨_, tick', (alike.clock time).goOn (lt_of_run? found) same (halted_of_free free found) (sound.kept found)
    (sound'.kept found')⟩

/-- Engines that are alike settle alike. -/
theorem settles (sound : Sound e) (sound' : Sound e') {target : Nat} {later : Engine}
    (settles : Settles target e later) : ∃ later', Settles target e' later' ∧ Alike later later' := by
  induction settles generalizing e' with
  | @rests e rest =>
    have free : e.busy = false := by
      cases busy : e.busy with
      | false => rfl
      | true =>
        obtain ⟨order, r, next, -⟩ := sound.next?_of_busy busy
        obtain ⟨next, tick⟩ := tick?_isSome next (Nat.zero_le target)
        rw [rest] at tick
        cases tick
    have rest' : e'.tick? target = none := by
      rw [tick?_eq_none_iff] at rest ⊢
      rw [alike.next? sound sound' free]
      exact rest
    exact ⟨_, .rests rest', alike.clock target⟩
  | ticks free tick _ ih =>
    obtain ⟨next', tick', next⟩ := alike.tick? sound sound' free tick
    obtain ⟨later', settles, last⟩ := ih next (sound.tick? tick) (sound'.tick? tick')
    exact ⟨later', .ticks (alike.busy.trans free) tick' settles, last⟩
  | @works _ _ _ _ stage _ found running halts _ ih =>
    obtain ⟨r', found', same⟩ := alike.run? found
    obtain ⟨R, bisimulation, fits⟩ := same.related
    rw [running] at fits
    obtain ⟨h', halts', stops⟩ := bisimulation.halts fits halts
    have running' := same.phase.trans running
    have soundNext := sound.reaches (sound.halted_of_halts found running halts).1
    have soundNext' := sound'.reaches (sound'.halted_of_halts found' running' halts').1
    have next := alike.halted (lt_of_run? found) same stage bisimulation stops
    obtain ⟨later', settles, last⟩ := ih next soundNext soundNext'
    exact ⟨later', .works found' running' halts' settles, last⟩

/-- Engines that are alike come to rest alike. -/
theorem comes (sound : Sound e) (sound' : Sound e') {target : Nat} {later : Engine}
    (comes : Comes target e later) : ∃ later', Comes target e' later' ∧ Alike later later' := by
  obtain ⟨later', settles, last⟩ := alike.settles sound sound' (comes.settles sound)
  exact ⟨later', settles.comes sound', last⟩

/-! #### What happens from outside -/

theorem teardown : Alike e.teardown e'.teardown := by
  have length : e'.teardown.runs.length = e.teardown.runs.length := by
    rw [teardown_length, teardown_length, alike.length]
  have runs (order : Nat) : Option.Rel Run.Alike (e.teardown.run? order) (e'.teardown.run? order) := by
    rw [teardown_run?, teardown_run?, alike.current]
    split
    · rcases alike.runs_cases order with ⟨missing, missing'⟩ | ⟨r, r', found, found', same⟩
      · rw [missing, missing']
        exact .none
      · rw [found, found']
        exact .some same.tearDown
    · exact alike.runs order
  rw [teardown_eq e, teardown_eq e']
  exact { alike with status := rfl, length, runs }

theorem stop : Alike e.stop e'.stop := by
  rw [Engine.stop, Engine.stop, alike.status, alike.length]
  split
  · exact alike.teardown
  · exact alike.teardown.put (.notice _ (.same .stopped))

theorem answer? (order : Nat) (reply : Option String) :
    Option.Rel Alike (e.answer? order reply) (e'.answer? order reply) := by
  unfold Engine.answer?
  rcases alike.runs_cases order with ⟨missing, missing'⟩ | ⟨r, r', found, found', same⟩
  · rw [missing, missing']
    exact .none
  · obtain ⟨R, bisimulation, fits⟩ := same.related
    rw [found, found', Option.bind_eq_bind, Option.bind_some, Option.bind_some, same.phase]
    cases phase : r.phase with
    | running | scheduled | resting | crashed | ended => exact .none
    | waiting stage wait =>
      rw [phase] at fits
      cases wait with
      | time => exact .none
      | reply answer =>
        cases answer with
        | some => exact .none
        | none =>
          have waits := same.moved same.outside (.waiting stage (.reply (some reply))) ⟨R, bisimulation, fits⟩
          exact .some (alike.setRun (lt_of_run? found) waits)

theorem append {slot slot' : Option Run} (same : Option.Rel Run.Alike slot slot') :
    Alike { e with runs := e.runs ++ [slot] } { e' with runs := e'.runs ++ [slot'] } := by
  refine { alike with length := ?_, runs := ?_ }
  · rw [List.length_append, List.length_append, alike.length]
    rfl
  · intro order
    rw [run?_append, run?_append, alike.length]
    split
    · exact same
    · exact alike.runs order

theorem clear : e'.clear.1 = e.clear.1 ∧ Alike e.clear.2 e'.clear.2 := by
  have torn := alike.teardown
  have cleared : Alike e.prepared e'.prepared := { torn with devices := congrArg Devices.discardClicks torn.devices }
  have canvas : Canvas.fresh e'.prepared.config e'.prepared.devices.mouse =
      Canvas.fresh e.prepared.config e.prepared.devices.mouse := by
    rw [cleared.config, cleared.devices]
  refine ⟨congrArg (fun c => c.takeOutbox.2) canvas, ?_⟩
  rw [clear_eq e, clear_eq e', canvas, alike.length]
  exact (cleared.put (.notice e.runs.length (.same .running))).hand e.runs.length _

end Alike

/-- Two sketches that are rejected for the same reasons, or open alike. -/
inductive OpenAlike (source source' : String) : Except (List Diagnostic) (Program × List Diagnostic) →
    Except (List Diagnostic) (Program × List Diagnostic) → Prop
  | rejected {errors errors' : List Diagnostic} (faults : Lint.Alike errors errors') :
      OpenAlike source source' (.error errors) (.error errors')
  | accepted {p p' : Program} {warnings warnings' : List Diagnostic}
      (opens : ∀ config canvas, (openingRun source p config canvas).Alike (openingRun source' p' config canvas))
      (faults : Lint.Alike warnings warnings') : OpenAlike source source' (.ok (p, warnings)) (.ok (p', warnings'))

theorem OpenAlike.refl (source : String) (compiled : Except (List Diagnostic) (Program × List Diagnostic)) :
    OpenAlike source source compiled compiled := by
  cases compiled with
  | error errors => exact .rejected (.refl errors)
  | ok compiled => exact .accepted (fun _ _ => .refl _) (.refl compiled.2)

namespace Alike

variable {e e' : Engine} (alike : Alike e e')

include alike

/-- A new order begins alike, or is rejected for the same reasons. -/
theorem launch {source source' : String} {compiled compiled' : Except (List Diagnostic) (Program × List Diagnostic)}
    (verdicts : OpenAlike source source' compiled compiled') :
    Alike (e.launch source compiled) (e'.launch source' compiled') := by
  obtain ⟨canvas, cleared⟩ := alike.clear
  cases verdicts with
  | rejected faults =>
    rw [Engine.launch, Engine.launch, alike.length]
    exact ((cleared.put (.notice e.runs.length (.rejected faults))).put
      (.completed e.runs.length (.rejected faults))).append .none
  | accepted opens faults =>
    rw [Engine.launch, Engine.launch, alike.length, canvas, cleared.config]
    exact (((cleared.put (.notice e.runs.length (.warned faults))).append
      (.some (opens e.clear.2.config e.clear.1))).withCurrent (some e.runs.length)).withStatus .executing

theorem execute (source : String) : Alike (e.execute source) (e'.execute source) := by
  rw [execute_eq_launch, execute_eq_launch]
  exact alike.launch (.refl source _)

/-- Moves that have to wait until no run is at work. -/
theorem moveOr {m : Move} {made made' : Option Engine} (left : e.move? m = if e.busy then none else made)
    (right : e'.move? m = if e'.busy then none else made') (same : Option.Rel Alike made made') :
    Alike (e.moveOr m) (e'.moveOr m) := by
  rw [Engine.moveOr, Engine.moveOr, left, right, alike.busy]
  split
  · exact alike
  · cases same with
    | none => exact alike
    | some next => exact next

theorem asked? : e'.asked? = e.asked? := by
  unfold Engine.asked?
  rw [alike.current]
  cases e.current with
  | none => rfl
  | some order =>
    simp only [Option.bind_eq_bind, Option.bind_some]
    rcases alike.runs_cases order with ⟨missing, missing'⟩ | ⟨r, r', found, found', same⟩
    · rw [missing, missing']
    · rw [found, found', Option.bind_some, Option.bind_some, same.phase]

theorem prompted (event : EngineEvent) : Alike (e.prompted event) (e'.prompted event) := by
  cases event with
  | sleep => exact alike
  | execute source => exact alike.moveOr rfl rfl (.some (alike.execute source))
  | stop => exact alike.moveOr rfl rfl (.some alike.stop)
  | device d =>
    have received : e'.devices.receive d = e.devices.receive d := congrArg (·.receive d) alike.devices
    exact alike.moveOr rfl rfl (.some { alike with devices := received })
  | reply text =>
    rw [Engine.prompted, Engine.prompted, Engine.apply, Engine.apply, alike.asked?]
    cases e.asked? with
    | none => exact alike
    | some order => exact alike.moveOr rfl rfl (alike.answer? order text)

/-- Engines that are alike handle events alike. -/
theorem handled (sound : Sound e) (sound' : Sound e') {events : List EngineEvent} {later : Engine}
    (handled : Handled e events later) : ∃ later', Handled e' events later' ∧ Alike later later' := by
  induction handled generalizing e' with
  | nil => exact ⟨e', .nil e', alike⟩
  | @cons e next later event events comes _ ih =>
    have soundNext := sound.reaches (reaches_prompted e event)
    have soundNext' := sound'.reaches (reaches_prompted e' event)
    obtain ⟨next', comes', alikeNext⟩ := (alike.prompted event).comes soundNext soundNext' comes
    obtain ⟨later', rest, last⟩ := ih alikeNext (soundNext.reaches comes.reaches)
      (soundNext'.reaches comes'.reaches)
    rw [← alike.now] at comes'
    exact ⟨later', .cons comes' rest, last⟩

end Alike

end Engine

end Sketch
