import Sketch.Proofs.Engine.Offset
import Sketch.Proofs.Engine.Teardown

/-!
An engine that gets a new order goes on like one that never had another: `Sequel` says that an engine is what another
one without a past would be, put behind a past.
-/

namespace Sketch

/-- A change as it is made later on, with devices that make no difference. -/
def Change.Later (t : Nat) (c c' : Change) : Prop :=
  ∃ devices, c' = { c with phase := c.phase.later t, devices } ∧ c.devices.Alike devices

namespace Engine

/-- The engine `f` is what `g` would be behind the past of `e`. Of that, nothing is left but pauses that will end
    without a trace. -/
structure Sequel (e g f : Engine) : Prop where
  config : f.config = g.config
  answers : f.answers = g.answers
  devices : g.devices.Alike f.devices
  status : f.status = g.status
  length : f.runs.length = e.runs.length + g.runs.length
  runs : ∀ k, f.run? (e.runs.length + k) = (g.run? k).map (Run.later e.wholeTime)
  gone : ∀ {order r}, order < e.runs.length → f.run? order = some r → r.cancelled = true
  current : ∀ {k}, g.current = some k → f.current = some (e.runs.length + k)
  past : g.current = none → ∀ {order}, f.current = some order → order < e.runs.length
  now : f.now = e.wholeTime + g.now
  started : e.now ≤ f.now
  log : ∃ more, f.log = e.log ++ more ∧ more.filterMap (Output.since? e.runs.length) = g.log ∧
    ∀ o ∈ more, o.order < e.runs.length → o.events = []

theorem busy_iff (e : Engine) : e.busy = true ↔ ∃ order r, e.run? order = some r ∧ r.phase.isRunning = true := by
  rw [Engine.busy, busy?, List.findIdx?_isSome, List.any_eq_true]
  constructor
  · rintro ⟨slot, mem, running⟩
    obtain ⟨order, here⟩ := List.getElem?_of_mem mem
    cases slot with
    | none => cases running
    | some r => exact ⟨order, r, by rw [run?, here]; rfl, running⟩
  · rintro ⟨order, r, found, running⟩
    rw [run?, Option.join_eq_some_iff] at found
    exact ⟨some r, List.mem_of_getElem? found, running⟩

/-- An engine as a new order finds it: torn down, without old presses. -/
def prepared (e : Engine) : Engine := { e.teardown with devices := e.teardown.devices.discardClicks }

theorem clear_eq (e : Engine) : e.clear.2 = (e.prepared.put (.notice e.runs.length .running)).hand e.runs.length
    (Canvas.fresh e.prepared.config e.prepared.devices.mouse).takeOutbox.1.toArray := rfl

theorem execute_of_compile {source : String} {program : Program} {warnings : List Diagnostic}
    (compiled : compile source = .ok (program, warnings)) (e : Engine) :
    e.execute source =
      { e.clear.2.put (.notice e.runs.length (.warned warnings)) with
        runs := e.clear.2.runs ++ [some (openingRun source program e.clear.2.config e.clear.1)]
        current := some e.runs.length
        status := .executing } := by
  rw [execute_eq_launch, compiled]
  rfl

/-- The run of a new order is there only if its source compiles. -/
theorem ordered_run {source : String} {e : Engine} {r : Run}
    (found : (e.execute source).run? e.runs.length = some r) :
    ∃ program warnings, compile source = .ok (program, warnings) ∧
      r = openingRun source program e.clear.2.config e.clear.1 := by
  have length : e.clear.2.runs.length = e.runs.length := by
    rw [(clear_snd e).1, teardown_length]
  cases compiled : compile source with
  | error errors =>
    have runs : (e.execute source).runs = e.clear.2.runs ++ [none] := by
      rw [execute, compiled]
      rfl
    rw [run?_eq_of_append runs, if_pos length.symm] at found
    cases found
  | ok accepted =>
    have runs := congrArg Engine.runs (execute_of_compile compiled e)
    rw [run?_eq_of_append runs, if_pos length.symm] at found
    exact ⟨accepted.1, accepted.2, rfl, (Option.some.inj found).symm⟩

namespace Sequel

variable {e g f : Engine} (sequel : Sequel e g f)

include sequel

theorem withStatus (status : Status) : Sequel e { g with status } { f with status } :=
  { sequel with status := rfl }

theorem withAnswers (answers : Answers) : Sequel e { g with answers } { f with answers } :=
  { sequel with answers := rfl }

theorem withDevices {devices devices' : Devices} (alike : devices.Alike devices') :
    Sequel e { g with devices } { f with devices := devices' } :=
  { sequel with devices := alike }

theorem withOutputs {outputs outputs' : Array Output} (told : List Output)
    (log : outputs.toList = g.log ++ told)
    (log' : outputs'.toList = f.log ++ told.map (Output.behind e.runs.length)) :
    Sequel e { g with outputs } { f with outputs := outputs' } := by
  obtain ⟨more, whole, since, silent⟩ := sequel.log
  refine { sequel with log := ⟨more ++ told.map (Output.behind e.runs.length), ?_, ?_, ?_⟩ }
  · rw [← List.append_assoc, ← whole]
    exact log'
  · have back : Output.since? e.runs.length ∘ Output.behind e.runs.length = some :=
      funext (Output.since?_behind e.runs.length)
    rw [List.filterMap_append, since, List.filterMap_map, back, List.filterMap_some]
    exact log.symm
  · intro o mem early
    rcases List.mem_append.mp mem with old | new
    · exact silent o old early
    · obtain ⟨o, -, rfl⟩ := List.mem_map.mp new
      exact absurd early (Output.not_order_behind_lt _ o)

theorem put (o : Output) : Sequel e (g.put o) (f.put (o.behind e.runs.length)) :=
  sequel.withOutputs [o] (log_put g o) (log_put f _)

theorem hand (k : Nat) (events : Array HostEvent) : Sequel e (g.hand k events) (f.hand (e.runs.length + k) events) := by
  apply sequel.withOutputs (events.toList.map (.host k)) (log_hand g k events)
  rw [List.map_map]
  exact log_hand f _ events

variable {k order time : Nat} {r : Run}

theorem setRun (inside : k < g.runs.length) (r : Run) :
    Sequel e (g.setRun k r) (f.setRun (e.runs.length + k) (r.later e.wholeTime)) := by
  have inside' : e.runs.length + k < f.runs.length := by
    rw [sequel.length]
    exact Nat.add_lt_add_left inside _
  refine { sequel with length := ?_, runs := ?_, gone := ?_ }
  · rw [length_setRun, length_setRun, sequel.length]
  · intro j
    rw [run?_setRun inside, run?_setRun inside', sequel.runs]
    simp only [Nat.add_left_cancel_iff]
    split <;> rfl
  · intro order r early present
    rw [run?_setRun inside', if_neg (by omega)] at present
    exact sequel.gone early present

/-- A change is made later on as it is made without a past. -/
theorem undergo (inside : k < g.runs.length) (r : Run) {c c' : Change} (later : c.Later e.wholeTime c') :
    Sequel e (g.undergo k r c) (f.undergo (e.runs.length + k) (r.later e.wholeTime) c') := by
  obtain ⟨devices, rfl, alike⟩ := later
  have told : (c.outputs k).map (Output.behind e.runs.length) = c.outputs (e.runs.length + k) := by
    rw [Change.outputs, List.map_append, List.map_append, List.map_map, List.map_map, List.map_map]
    rfl
  refine ((((sequel.setRun inside (r.changed c)).withAnswers c.answers).withDevices alike).withStatus
    c.status).withOutputs (c.outputs k) (log_undergo g k r c) ?_
  rw [told]
  exact log_undergo f _ r c

theorem left (m : Machine) (phase : Phase) (more : List HostEvent) :
    f.left m phase more = { g.left m phase more with devices := f.devices } := by
  rw [Engine.left, moved, sequel.status, sequel.answers]
  rfl

/-- A stage ends as it would without a past. -/
theorem closing (r : Run) (stage : Stage) (m : Machine) (ending : Ending) : (g.closing r stage m ending).Later
    e.wholeTime (f.closing (r.later e.wholeTime) (stage.later e.wholeTime) m ending) := by
  have later : (r.later e.wholeTime).cancelled = r.cancelled ∧ (r.later e.wholeTime).source = r.source ∧
      (r.later e.wholeTime).frameFunction = r.frameFunction := ⟨rfl, rfl, rfl⟩
  cases stage with
  | opening =>
    rw [Stage.later, Engine.closing, Engine.closing, opening.eq_def, opening.eq_def, later.1, later.2.1, later.2.2,
      sequel.config]
    simp only [sequel.left]
    split
    · exact ⟨_, rfl, sequel.devices⟩
    · split <;> exact ⟨_, rfl, sequel.devices⟩
  | frame ticker next =>
    cases ending with
    | well =>
      rw [Stage.later, Engine.closing, Engine.closing, ticking, ticking, sequel.left, sequel.devices.mouse]
      exact ⟨_, rfl, sequel.devices⟩
    | failed failure =>
      rw [Stage.later, Engine.closing, Engine.closing, ticking, ticking, later.1, later.2.1, sequel.config, sequel.left]
      split <;> exact ⟨_, rfl, sequel.devices⟩
    | stopped =>
      rw [Stage.later, Engine.closing, Engine.closing, ticking, ticking, sequel.left]
      exact ⟨_, rfl, sequel.devices⟩

/-- A pause waits for the same, later on. -/
theorem await (p : Pause) : (f.await p).1 = (g.await p).1.later e.wholeTime ∧
    (f.await p).2.answers = (g.await p).2.answers := by
  cases p with
  | delay n =>
    rw [Engine.await, sequel.now, Nat.add_assoc, nextMillisecond_add e.wholeTime_dvd]
    exact ⟨rfl, sequel.answers⟩
  | prompt text =>
    rw [Engine.await, Engine.await, sequel.answers]
    split
    · exact ⟨rfl, sequel.answers⟩
    · exact ⟨rfl, rfl⟩
    · exact ⟨rfl, sequel.answers⟩

/-- A stage halts as it would without a past. -/
theorem halting (r : Run) (stage : Stage) (halt : Step) : (g.halting r stage halt).Later
    e.wholeTime (f.halting (r.later e.wholeTime) (stage.later e.wholeTime) halt) := by
  cases halt with
  | next m =>
    rw [Engine.halting, Engine.halting, sequel.left]
    exact ⟨_, rfl, sequel.devices⟩
  | finished m => exact sequel.closing r stage m .well
  | failed failure m => exact sequel.closing r stage m (.failed failure)
  | crashed m =>
    cases stage <;> rw [Stage.later, Engine.halting, Engine.halting, sequel.left] <;> exact ⟨_, rfl, sequel.devices⟩
  | paused p m =>
    have later : (r.later e.wholeTime).cancelled = r.cancelled := rfl
    obtain ⟨wait, answers⟩ := sequel.await p
    rw [Engine.halting, Engine.halting, later, sequel.left, wait, answers]
    split
    · exact sequel.closing r stage m.abandon .stopped
    · exact ⟨_, rfl, sequel.devices⟩

theorem firstFrame (function : String) : f.firstFrame function = (g.firstFrame function).later e.wholeTime := by
  rw [Engine.firstFrame, Engine.firstFrame, sequel.config, sequel.now]
  split <;> rfl

theorem beginning (r : Run) (ticker : Ticker) (due : Nat) : (g.beginning r ticker due).Later e.wholeTime
    (f.beginning (r.later e.wholeTime) ticker (e.wholeTime + due)) := by
  obtain ⟨frame, devices⟩ := sequel.devices.snapshot r.machine.world.canvas.frame
  refine ⟨_, ?_, devices⟩
  have later : (r.later e.wholeTime).machine = r.machine := rfl
  simp only [Engine.beginning, moved, later, sequel.status, sequel.answers, sequel.now, nextDue_add, frame]
  rfl

/-- A run changes as it would without a past. -/
theorem change? (r : Run) :
    Option.Rel (Change.Later e.wholeTime) (g.change? r) (f.change? (r.later e.wholeTime)) := by
  have moved (m : Machine) (phase : Phase) : f.moved m phase = { g.moved m phase with devices := f.devices } := by
    rw [Engine.moved, sequel.status, sequel.answers]
    rfl
  have later : (r.later e.wholeTime).phase = r.phase.later e.wholeTime ∧
      (r.later e.wholeTime).cancelled = r.cancelled := ⟨rfl, rfl⟩
  rw [Engine.change?, Engine.change?, later.1, later.2]
  cases r.phase with
  | waiting stage wait =>
    simp only [Phase.later]
    split
    · exact .some (sequel.closing r stage r.machine.abandon .stopped)
    · cases wait with
      | time =>
        rw [Wait.later, resuming?, resuming?, moved]
        exact .some ⟨_, rfl, sequel.devices⟩
      | reply answer =>
        cases answer with
        | none => exact .none
        | some =>
          rw [Wait.later, resuming?, resuming?, moved]
          exact .some ⟨_, rfl, sequel.devices⟩
  | running stage => exact .some (sequel.halting r stage _)
  | scheduled function =>
    simp only [Phase.later, moved, sequel.firstFrame]
    exact .some ⟨_, rfl, sequel.devices⟩
  | resting ticker due => exact .some (sequel.beginning r ticker due)
  | crashed | ended => exact .none

/-- A run goes on as it would without a past. -/
theorem goOn (inside : k < g.runs.length) (r : Run) :
    Sequel e (g.goOn k r) (f.goOn (e.runs.length + k) (r.later e.wholeTime)) := by
  have changes := sequel.change? r
  rw [goOn_eq, goOn_eq]
  generalize g.change? r = change, f.change? (r.later e.wholeTime) = change' at changes
  cases changes with
  | none => exact sequel
  | some later => exact sequel.undergo inside r later

theorem run?_eq_some (found : f.run? (e.runs.length + k) = some r) :
    ∃ r', g.run? k = some r' ∧ r = r'.later e.wholeTime := by
  rw [sequel.runs, Option.map_eq_some_iff] at found
  obtain ⟨r', found, rfl⟩ := found
  exact ⟨r', found, rfl⟩

theorem busy (sound : Sound f) : f.busy = g.busy := by
  rw [Bool.eq_iff_iff, busy_iff, busy_iff]
  constructor
  · rintro ⟨order, r, found, running⟩
    by_cases early : order < e.runs.length
    · rw [(sound.dropped found (sequel.gone early found)).1] at running
      cases running
    · obtain ⟨k, rfl⟩ := Nat.exists_eq_add_of_le (Nat.not_lt.mp early)
      obtain ⟨r, here, rfl⟩ := sequel.run?_eq_some found
      rw [Run.later, Phase.isRunning_later] at running
      exact ⟨k, r, here, running⟩
  · rintro ⟨k, r, found, running⟩
    refine ⟨e.runs.length + k, r.later e.wholeTime, ?_, ?_⟩
    · rw [sequel.runs, found]
      rfl
    · rw [Run.later, Phase.isRunning_later]
      exact running

theorem current_iff (k : Nat) : f.current = some (e.runs.length + k) ↔ g.current = some k := by
  constructor
  · intro here
    cases current : g.current with
    | none =>
      have early := sequel.past current here
      omega
    | some j =>
      have same := Option.some.inj ((sequel.current current).symm.trans here)
      rw [Nat.add_left_cancel same]
  · exact sequel.current

/-- Tearing down goes behind a past as without one. -/
theorem teardown : Sequel e g.teardown f.teardown := by
  have length : f.teardown.runs.length = e.runs.length + g.teardown.runs.length := by
    rw [teardown_length, teardown_length, sequel.length]
  have runs (k : Nat) : f.teardown.run? (e.runs.length + k) = (g.teardown.run? k).map (Run.later e.wholeTime) := by
    rw [teardown_run?, teardown_run?, sequel.runs]
    simp only [sequel.current_iff]
    split
    · rw [Option.map_map, Option.map_map]
      congr 1
      funext r
      exact Run.tearDown_later e.wholeTime r
    · rfl
  have gone {order : Nat} {r : Run} (early : order < e.runs.length) (found : f.teardown.run? order = some r) :
      r.cancelled = true := by
    rw [teardown_run?] at found
    split at found
    · obtain ⟨r, -, rfl⟩ := Option.map_eq_some_iff.mp found
      rfl
    · exact sequel.gone early found
  rw [teardown_eq g, teardown_eq f]
  exact { sequel with status := rfl, length, runs, gone }

theorem stop (sound : Sound g) : Sequel e g.stop f.stop := by
  have torn := sequel.teardown
  unfold Engine.stop
  rw [sequel.status]
  split
  · exact torn
  · rename_i active
    obtain ⟨k, r, -, -, -, last, -⟩ := sound.of_status active
    have here : f.runs.length - 1 = e.runs.length + (g.runs.length - 1) := by
      rw [sequel.length]
      omega
    rw [here]
    exact torn.put (.notice (g.runs.length - 1) .stopped)

theorem append (slot : Option Run) : Sequel e { g with runs := g.runs ++ [slot] }
      { f with runs := f.runs ++ [slot.map (Run.later e.wholeTime)] } := by
  refine { sequel with length := ?_, runs := ?_, gone := ?_ }
  · rw [List.length_append, List.length_append, sequel.length]
    exact Nat.add_assoc _ _ _
  · intro k
    rw [run?_append, run?_append, sequel.length, sequel.runs]
    simp only [Nat.add_left_cancel_iff]
    split <;> rfl
  · intro order r early present
    rw [run?_append, sequel.length, if_neg (by omega)] at present
    exact sequel.gone early present

theorem withCurrent (k : Nat) :
    Sequel e { g with current := some k } { f with current := some (e.runs.length + k) } := by
  refine { sequel with current := ?_, past := ?_ }
  · intro j here
    cases here
    rfl
  · intro none
    cases none

omit sequel in
/-- A new order begins with the same canvas. -/
theorem clear (length : f.runs.length = e.runs.length + g.runs.length)
    (prepared : Sequel e g.prepared f.prepared) : f.clear.1 = g.clear.1 ∧ Sequel e g.clear.2 f.clear.2 := by
  have canvas : Canvas.fresh f.prepared.config f.prepared.devices.mouse =
      Canvas.fresh g.prepared.config g.prepared.devices.mouse := by
    rw [prepared.config, prepared.devices.mouse]
  refine ⟨congrArg (fun c => c.takeOutbox.2) canvas, ?_⟩
  rw [clear_eq g, clear_eq f, canvas, length]
  exact (prepared.put (.notice g.runs.length .running)).hand g.runs.length _

omit sequel in
theorem execute_of_prepared (length : f.runs.length = e.runs.length + g.runs.length)
    (prepared : Sequel e g.prepared f.prepared) (source : String) : Sequel e (g.execute source) (f.execute source) := by
  obtain ⟨canvas, cleared⟩ := clear length prepared
  cases compiled : compile source with
  | error errors =>
    rw [Engine.execute, Engine.execute, compiled]
    simp only [length]
    exact ((cleared.put (.notice g.runs.length (.rejected errors))).put
      (.completed g.runs.length (.rejected errors))).append none
  | ok result =>
    obtain ⟨program, warnings⟩ := result
    rw [execute_of_compile compiled, execute_of_compile compiled, canvas, cleared.config, length]
    exact (((cleared.put (.notice g.runs.length (.warned warnings))).append
      (some (openingRun source program g.clear.2.config g.clear.1))).withCurrent
      g.runs.length).withStatus .executing

theorem execute (source : String) : Sequel e (g.execute source) (f.execute source) :=
  have torn := sequel.teardown
  execute_of_prepared sequel.length (torn.withDevices torn.devices.discardClicks) source

/-! #### What is left of the past -/

theorem setGone (early : order < e.runs.length) (gone : r.cancelled = true) : Sequel e g (f.setRun order r) := by
  have inside : order < f.runs.length := by
    rw [sequel.length]
    exact Nat.lt_add_right _ early
  refine { sequel with length := ?_, runs := ?_, gone := ?_ }
  · rw [length_setRun, sequel.length]
  · intro k
    rw [run?_setRun inside, if_neg (by omega)]
    exact sequel.runs k
  · intro k r' early present
    rw [run?_setRun inside] at present
    split at present
    · cases present
      exact gone
    · exact sequel.gone early present

theorem putGone {o : Output} (early : o.order < e.runs.length) (silent : o.events = []) : Sequel e g (f.put o) := by
  obtain ⟨more, whole, since, quiet⟩ := sequel.log
  refine { sequel with log := ⟨more ++ [o], ?_, ?_, ?_⟩ }
  · rw [log_put, whole, List.append_assoc]
  · have skipped : [o].filterMap (Output.since? e.runs.length) = [] := by
      rw [List.filterMap_cons, Output.since?, if_pos early, List.filterMap_nil]
    rw [List.filterMap_append, since, skipped, List.append_nil]
  · intro o' mem early'
    rcases List.mem_append.mp mem with old | new
    · exact quiet o' old early'
    · rw [List.mem_singleton.mp new]
      exact silent

/-- A run of the past that goes on ends its pause, and no more. -/
theorem goOnGone (sound : Sound f) (early : order < e.runs.length)
    (found : f.run? order = some r) (wakes : r.wake? = some time) : Sequel e g (f.goOn order r) := by
  have gone := sequel.gone early found
  obtain ⟨halts, dropped⟩ := sound.dropped found gone
  rw [goOn_of_cancelled gone (sound.kept found) halts dropped wakes]
  have completes : (Output.completed order .ok).order < e.runs.length := early
  apply (setGone sequel early _).putGone completes rfl
  exact gone

theorem clock {time' : Nat} (same : max f.now time' = e.wholeTime + max g.now time) :
    Sequel e { g with now := max g.now time } { f with now := max f.now time' } :=
  { sequel with now := same, started := Nat.le_trans sequel.started (Nat.le_max_left _ _) }

theorem answer? (k : Nat) (reply : Option String) :
    Option.Rel (Sequel e) (g.answer? k reply) (f.answer? (e.runs.length + k) reply) := by
  unfold Engine.answer?
  rw [sequel.runs]
  cases found : g.run? k with
  | none => exact .none
  | some r =>
    have inside := lt_of_run? found
    have later : (r.later e.wholeTime).phase = r.phase.later e.wholeTime := rfl
    simp only [Option.map_some, Option.bind_eq_bind, Option.bind_some, later]
    match r.phase with
    | .waiting stage (.reply none) => exact .some (sequel.setRun inside _)
    | .waiting stage (.reply (some _)) => exact .none
    | .waiting stage (.time _) => exact .none
    | .running _ | .scheduled _ | .resting _ _ | .crashed | .ended => exact .none

theorem poll? (sound : Sound f) (k : Nat) : Option.Rel (Sequel e) (g.poll? k) (f.poll? (e.runs.length + k)) := by
  cases found : g.run? k with
  | none =>
    have missing : f.run? (e.runs.length + k) = none := by
      rw [sequel.runs, found]
      rfl
    rw [Engine.poll?, Engine.poll?, found, missing]
    exact .none
  | some r =>
    have found' : f.run? (e.runs.length + k) = some (r.later e.wholeTime) := by
      rw [sequel.runs, found]
      rfl
    have running : (r.later e.wholeTime).phase.isRunning = r.phase.isRunning :=
      Phase.isRunning_later e.wholeTime r.phase
    rw [poll?_eq found, poll?_eq found', sequel.now, Run.isDue_later e.wholeTime_dvd, running,
      sequel.busy sound]
    split
    · exact .some (sequel.goOn (lt_of_run? found) r)
    · exact .none

end Sequel

/-! ### The beginning of a sequel -/

/-- An engine without a past in the surroundings of `e`. -/
def fresh (e : Engine) : Engine :=
  { Engine.new e.config e.answers with
    devices := e.devices.discardClicks
    now := e.now % millisecond }

variable {e : Engine} {order : Nat}

/-- A run that goes on touches itself only. -/
theorem goOn_touches {time : Nat} {r : Run} (wakes : r.wake? = some time) :
    ∃ r' status more, Touches e order r' status more (e.goOn order r) := by
  obtain ⟨c, -, goes⟩ := goOn_of_wakes (e := e) order wakes
  exact ⟨_, _, _, goes ▸ Touches.undergo e order r c⟩

/-- The latest order that has a run stays, or is a new one. -/
theorem current_of_move? {next : Engine} {m : Move} (made : e.move? m = some next) :
    (next.current = e.current ∧ e.runs.length ≤ next.runs.length) ∨
      (next.current = some e.runs.length ∧ e.runs.length < next.runs.length) := by
  have touched {k : Nat} {r : Run} {status : Status} {more : List Output}
      (touches : Touches e k r status more next) :
      next.current = e.current ∧ e.runs.length ≤ next.runs.length := by
    rw [touches.runs, List.length_set]
    exact ⟨touches.current, Nat.le_refl _⟩
  cases made_of_move? made with
  | execute source free =>
    obtain ⟨-, -, -, ⟨-, -, runs, same, -⟩ | ⟨r, -, -, runs, latest, -⟩⟩ := execute_cases e source
    all_goals rw [runs, List.length_append, teardown_length]
    · exact .inl ⟨same, Nat.le_succ _⟩
    · exact .inr ⟨latest, Nat.lt_succ_self _⟩
  | stop free =>
    left
    unfold Engine.stop
    split <;> exact ⟨teardown_current e, Nat.le_of_eq (teardown_length e).symm⟩
  | device | clock => exact .inl ⟨rfl, Nat.le_refl _⟩
  | answer => exact .inl (touched (Touches.setRun e _ _))
  | poll found wakes =>
    obtain ⟨_, _, _, touches⟩ := goOn_touches wakes
    exact .inl (touched touches)

theorem current_lt_of_reachable (reachable : e.Reachable)
    (current : e.current = some order) : order < e.runs.length := by
  obtain ⟨config, answers, reached⟩ := reachable
  induction reached generalizing order with
  | refl => cases current
  | tail reached made ih =>
    obtain ⟨m, made⟩ := made
    rcases current_of_move? made with ⟨same, more⟩ | ⟨latest, more⟩
    · exact Nat.lt_of_lt_of_le (ih (same ▸ current)) more
    · cases latest.symm.trans current
      exact more

theorem current_isSome_of_reaches {later : Engine} (reached : e.Reaches later)
    (current : e.current.isSome = true) : later.current.isSome = true := by
  induction reached with
  | refl => exact current
  | tail reached made ih =>
    obtain ⟨m, made⟩ := made
    rcases current_of_move? made with ⟨same, -⟩ | ⟨latest, -⟩
    · rw [same]
      exact ih
    · rw [latest]
      rfl

/-- A new order on an engine that is not at work is the beginning of a sequel. -/
theorem Sequel.begins {e₀ : Engine} (reachable : e.Reachable) (free : e.busy = false)
    (config : e.config = e₀.config) (answers : e.answers = e₀.answers)
    (held : e₀.devices.HeldAlike e.devices) (grid : e.now % millisecond = e₀.now % millisecond)
    (source : String) : Sequel e (e₀.fresh.execute source) (e.execute source) := by
  have sound := Sound.of_reachable reachable
  have cleared : e.prepared =
      { e with status := .idle, runs := e.teardown.runs, devices := e.devices.discardClicks } := by
    rw [prepared, teardown_eq]
  apply Sequel.execute_of_prepared rfl _ source
  rw [cleared]
  constructor
  case config => exact config
  case answers => exact answers
  case devices => exact held.discardClicks
  case status => rfl
  case length => exact teardown_length e
  case runs =>
    intro k
    have none : e.teardown.runs[e.runs.length + k]? = none := by
      rw [List.getElem?_eq_none_iff, teardown_length]
      exact Nat.le_add_right _ _
    change e.teardown.run? (e.runs.length + k) = _
    rw [run?, none]
    rfl
  case gone =>
    intro order r early found
    exact (sound.teardown_runs free found).1
  case current =>
    intro k here
    cases here
  case past =>
    intro none order current
    exact current_lt_of_reachable reachable current
  case now =>
    change e.now = e.wholeTime + e₀.now % millisecond
    rw [← grid, wholeTime_add]
  case started => exact Nat.le_refl _
  case log => exact ⟨[], (List.append_nil _).symm, rfl, by simp⟩

end Engine

end Sketch
