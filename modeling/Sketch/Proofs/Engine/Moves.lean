import Mathlib.Logic.Relation
import Sketch.Proofs.Engine.Changes
import Sketch.Proofs.Machine.Calls

/-!
What one move can do to an engine. A run that goes on touches itself, the status and the log, and nothing else; `Went`
lists the ways in which it can do so. Histories of an engine are derived from this.
-/

namespace Sketch

namespace Run

/-- The active calls of a run have their ends on the stack, and between frames there are none. -/
def Level (r : Run) : Prop :=
  match r.phase with
  | .running _ | .waiting .. => r.machine.Level
  | .scheduled _ | .resting .. => r.machine.frames = []
  | .crashed | .ended => True

/-- How a run is kept from move to move. -/
structure Kept (r : Run) : Prop where
  /-- What it sent was handed over when it halted. -/
  quiet : r.machine.sent = #[]
  level : r.Level

theorem Kept.tearDown {r : Run} (kept : r.Kept) : r.tearDown.Kept := by
  refine ⟨kept.quiet, ?_⟩
  rw [Run.tearDown, Level]
  cases looping : r.phase.isLooping with
  | true => trivial
  | false => exact kept.level

end Run

namespace Engine

/-- The notices in a log on account of an order. -/
def noticesOf (order : Nat) (log : List Output) : List Notice :=
  log.filterMap fun
    | .notice k n => if k = order then some n else none
    | _ => none

/-- The notices so far on account of an order. -/
def notices (e : Engine) (order : Nat) : List Notice := noticesOf order e.log

/-- One engine becomes another one by moves, in any order that can be made. -/
def Reaches : Engine → Engine → Prop := Relation.ReflTransGen fun e next => ∃ m, e.move? m = some next

/-- An engine that is in use. -/
def Reachable (e : Engine) : Prop := ∃ config answers, (Engine.new config answers).Reaches e

section Notices

variable (order : Nat)

@[simp] theorem noticesOf_nil : noticesOf order [] = [] := rfl

@[simp] theorem noticesOf_append (first second : List Output) :
    noticesOf order (first ++ second) = noticesOf order first ++ noticesOf order second :=
  List.filterMap_append

@[simp] theorem noticesOf_cons_host (k : Nat) (event : HostEvent) (rest : List Output) :
    noticesOf order (.host k event :: rest) = noticesOf order rest := rfl

@[simp] theorem noticesOf_cons_completed (k : Nat) (outcome : Outcome) (rest : List Output) :
    noticesOf order (.completed k outcome :: rest) = noticesOf order rest := rfl

@[simp] theorem noticesOf_cons_notice (n : Notice) (rest : List Output) :
    noticesOf order (.notice order n :: rest) = n :: noticesOf order rest := by
  simp [noticesOf]

@[simp] theorem noticesOf_map_host (k : Nat) (hosted : List HostEvent) :
    noticesOf order (hosted.map (.host k)) = [] := by
  induction hosted with
  | nil => rfl
  | cons event rest ih => simpa using ih

/-- The notice of a change is all that it says on account of its order. -/
@[simp] theorem noticesOf_outputs (c : Change) : noticesOf order (c.outputs order) = c.notice.toList := by
  rw [Change.outputs]
  cases c.notice <;> cases c.outcome <;> simp

end Notices

variable {order : Nat} {outputs : List Output} {e next : Engine} {r : Run}

/-- Outputs on account of other orders hold no notice on an order. -/
theorem noticesOf_eq_nil (foreign : ∀ o ∈ outputs, o.order ≠ order) : noticesOf order outputs = [] := by
  rw [noticesOf, List.filterMap_eq_nil_iff]
  intro o member
  have different := foreign o member
  cases o with
  | host | completed => rfl
  | notice k n => simpa [Output.order] using different

/-- What comes out on account of one order tells nothing about another. -/
theorem noticesOf_eq_nil_of_own {k : Nat} (own : ∀ o ∈ outputs, o.order = k)
    (other : order ≠ k) : noticesOf order outputs = [] := by
  apply noticesOf_eq_nil
  intro o member
  rw [own o member]
  exact Ne.symm other

/-- An order that has a run is one of the orders so far. -/
theorem lt_of_run? (found : e.run? order = some r) : order < e.runs.length := by
  rw [run?, Option.join_eq_some_iff] at found
  exact (List.getElem?_eq_some_iff.mp found).1

/-- A run in a place that was replaced. -/
theorem run?_eq_of_set (inside : order < e.runs.length) (runs : next.runs = e.runs.set order (some r)) (other : Nat) :
    next.run? other = if other = order then some r else e.run? other := by
  rw [run?, run?, runs, List.getElem?_set]
  by_cases same : order = other
  · subst same
    simp [inside]
  · simp [same, Ne.symm same]

theorem run?_setRun (inside : order < e.runs.length) (r : Run) (other : Nat) :
    (e.setRun order r).run? other = if other = order then some r else e.run? other :=
  run?_eq_of_set inside rfl other

theorem length_setRun : (e.setRun order r).runs.length = e.runs.length := List.length_set

/-- The runs after a new order, whose place is behind the old ones. -/
theorem run?_eq_of_append {slot : Option Run} (runs : next.runs = e.runs ++ [slot])
    (order : Nat) : next.run? order = if order = e.runs.length then slot else e.run? order := by
  rw [run?, runs, run?]
  rcases Nat.lt_trichotomy order e.runs.length with before | rfl | behind
  · rw [List.getElem?_append_left before, if_neg (by omega)]
  · simp
  · rw [if_neg (by omega), List.getElem?_eq_none (by simp; omega),
      List.getElem?_eq_none (by omega)]

theorem run?_append (slot : Option Run) (order : Nat) :
    { e with runs := e.runs ++ [slot] }.run? order = if order = e.runs.length then slot else e.run? order :=
  run?_eq_of_append rfl order

/-- The run of an order becomes `r`, and `more` comes out on its account. No other run can see more. -/
structure Touches (e : Engine) (order : Nat) (r : Run) (status : Status) (more : List Output)
    (next : Engine) : Prop where
  runs : next.runs = e.runs.set order (some r)
  current : next.current = e.current
  status : next.status = status
  log : next.log = e.log ++ more
  own : ∀ o ∈ more, o.order = order

namespace Touches

variable {e next : Engine} {order : Nat} {r : Run} {status : Status} {more : List Output}

theorem setRun (e : Engine) (order : Nat) (r : Run) :
    Touches e order r e.status [] (e.setRun order r) where
  runs := rfl
  current := rfl
  status := rfl
  log := by simp
  own := by simp

theorem put (touched : Touches e order r status more next) {o : Output} (own : o.order = order) :
    Touches e order r status (more ++ [o]) (next.put o) where
  runs := touched.runs
  current := touched.current
  status := touched.status
  log := by rw [log_put, touched.log, List.append_assoc]
  own := by
    intro other member
    rcases List.mem_append.mp member with old | new
    · exact touched.own other old
    · rw [List.mem_singleton.mp new]
      exact own

theorem undergo (e : Engine) (order : Nat) (r : Run) (c : Change) :
    Touches e order (r.changed c) c.status (c.outputs order) (e.undergo order r c) where
  runs := rfl
  current := rfl
  status := rfl
  log := log_undergo ..
  own := by
    intro o member
    simp only [Change.outputs, List.mem_append, List.mem_map] at member
    obtain ⟨_, -, rfl⟩ | ⟨_, -, rfl⟩ | ⟨_, -, rfl⟩ := member <;> rfl

end Touches

/-- How a run that is not cancelled goes on, by phase and status, with the notices that come out. -/
inductive Went (before : Phase) (status : Status) : Phase → Status → List Notice → Prop where
  | opens {after : Phase} (was : before.isOpening) (becomes : after.isOpening) :
      Went before status after status []
  | starts {after : Phase} (was : before.isOpening) (becomes : after.isLooping) :
      Went before status after .looping [.started]
  | finishes (was : before.isOpening) : Went before status .ended .idle [.finished]
  | loops {after : Phase} (was : before.isLooping) (becomes : after.isLooping) :
      Went before status after status []
  | fails (f : Failure) (line : Option Nat) (was : before.isOpening ∨ before.isLooping) :
      Went before status .ended .idle [.failed f line]
  | crashes (was : before.isOpening ∨ before.isLooping) : Went before status .crashed status []

/-- The run of an order goes on without being cancelled. -/
def GoesOn (e : Engine) (order : Nat) (before : Phase) (next : Engine) : Prop :=
  ∃ r status more, Touches e order r status more next ∧ r.cancelled = false ∧ r.Kept ∧
    Went before e.status r.phase status (noticesOf order more)

/-- A change is one of the ways of `Went`, and its run stays as runs are kept. -/
structure Goes (before : Phase) (status : Status) (r : Run) (c : Change) : Prop where
  kept : (r.changed c).Kept
  went : Went before status c.phase c.status c.notice.toList

section GoingOn

variable {e : Engine} {order : Nat} {r : Run} {before : Phase} {ending : Ending} {time : Nat} {m : Machine}

theorem opening_goes (alive : r.cancelled = false) (was : before.isOpening) (idle : ending = .well → m.frames = [])
    (ended : ending ≠ .stopped) : Goes before e.status r (e.opening r m ending) := by
  rw [opening.eq_def, if_neg (by simp [alive])]
  cases ending with
  | stopped => exact absurd rfl ended
  | failed f => exact ⟨⟨rfl, trivial⟩, .fails f _ (.inl was)⟩
  | well =>
    cases r.frameFunction with
    | some function => exact ⟨⟨rfl, idle rfl⟩, .starts was rfl⟩
    | none => exact ⟨⟨rfl, trivial⟩, .finishes was⟩

theorem ticking_goes (alive : r.cancelled = false) (was : before.isLooping) (ticker : Ticker)
    (following : Nat) (idle : ending = .well → m.frames = []) (ended : ending ≠ .stopped) :
    Goes before e.status r (e.ticking r ticker following m ending) := by
  cases ending with
  | stopped => exact absurd rfl ended
  | well => exact ⟨⟨rfl, idle rfl⟩, .loops was rfl⟩
  | failed f =>
    rw [ticking, if_neg (by simp [alive])]
    exact ⟨⟨rfl, trivial⟩, .fails f _ (.inr was)⟩

theorem closing_goes (alive : r.cancelled = false) {stage : Stage} (idle : ending = .well → m.frames = [])
    (ended : ending ≠ .stopped) : Goes (.running stage) e.status r (e.closing r stage m ending) := by
  cases stage with
  | opening => exact opening_goes alive rfl idle ended
  | frame ticker following => exact ticking_goes alive rfl ticker following idle ended

/-- A run that is at work on a stage stays with it until the stage is over. -/
theorem Went.stays {before after : Phase} (status : Status)
    (opening : before.isOpening = after.isOpening) (looping : before.isLooping = after.isLooping)
    (active : before.isOpening ∨ before.isLooping) : Went before status after status [] := by
  rcases active with was | was
  · exact .opens was (opening ▸ was)
  · exact .loops was (looping ▸ was)

theorem halting_goes (alive : r.cancelled = false) (stage : Stage) {halt : Step} (level : halt.Level) :
    Goes (.running stage) e.status r (e.halting r stage halt) := by
  have active : (Phase.running stage).isOpening ∨ (Phase.running stage).isLooping := by
    cases stage <;> simp [Phase.isOpening, Phase.isLooping]
  cases halt with
  | next m => exact ⟨⟨rfl, level⟩, .stays e.status rfl rfl active⟩
  | paused p m =>
    rw [halting, if_neg (by simp [alive])]
    refine ⟨⟨rfl, level⟩, ?_⟩
    cases stage <;> exact .stays e.status rfl rfl active
  | finished m => exact closing_goes alive (fun _ => level) (by simp)
  | failed f m => exact closing_goes alive (by simp) (by simp)
  | crashed m => cases stage <;> exact ⟨⟨rfl, trivial⟩, .crashes active⟩

theorem firstFrame_goes (quiet : r.machine.sent = #[]) (idle : r.machine.frames = []) (function : String) :
    Goes (.scheduled function) e.status r (e.moved r.machine (e.firstFrame function)) := by
  rw [firstFrame]
  split
  · exact ⟨⟨quiet, trivial⟩, .crashes (.inr rfl)⟩
  · exact ⟨⟨quiet, trivial⟩, .crashes (.inr rfl)⟩
  · exact ⟨⟨quiet, idle⟩, .loops rfl rfl⟩

/-- A run that is not cancelled goes on in one of the ways of `Went`. -/
theorem change_goes {c : Change} (alive : r.cancelled = false) (kept : r.Kept) (changes : e.change? r = some c) :
    Goes r.phase e.status r c := by
  obtain ⟨quiet, level⟩ := kept
  rw [Run.Level] at level
  cases changes_of_change? changes with
  | stopped _ gone => simp [alive] at gone
  | @resumed stage wait _ _ waits =>
    rw [waits] at level ⊢
    refine ⟨⟨quiet, level⟩, ?_⟩
    cases stage with
    | opening => exact .opens rfl rfl
    | frame => exact .loops rfl rfl
  | @halted stage works =>
    rw [works] at level ⊢
    exact halting_goes alive stage (Machine.run_level r.script level _)
  | @scheduled function waits =>
    rw [waits] at level ⊢
    exact firstFrame_goes quiet level function
  | begins rests =>
    rw [rests] at level ⊢
    exact ⟨⟨quiet, congrArg List.length level⟩, .loops rfl rfl⟩

theorem goOn_of_alive (alive : r.cancelled = false) (kept : r.Kept)
    (wakes : r.wake? = some time) : GoesOn e order r.phase (e.goOn order r) := by
  obtain ⟨c, changes, goes⟩ := goOn_of_wakes order wakes
  obtain ⟨kept', went⟩ := change_goes alive kept changes
  rw [goes]
  exact ⟨_, _, _, .undergo e order r c, alive, kept', (noticesOf_outputs order c).symm ▸ went⟩

/-- A cancelled run that has not ended is paused in its opening, and ends there. -/
theorem goOn_of_cancelled (cancelled : r.cancelled = true) (kept : r.Kept)
    (halts : r.phase.isRunning = false) (dropped : r.phase.isLooping = false) (wakes : r.wake? = some time) :
    e.goOn order r =
      (e.setRun order { r with machine := r.machine.abandon, phase := .ended }).put
        (.completed order .ok) := by
  have same : { r.machine.abandon with sent := #[] } = r.machine.abandon := by
    rw [Machine.abandon_eq, kept.quiet]
  have silent : e.hand order #[] = e := by
    simp [hand]
  rw [goOn]
  rw [Run.wake?] at wakes
  cases phase : r.phase with
  | waiting stage wait =>
    cases stage with
    | opening =>
      simp only [resume, cancelled, if_true, closed, opened, keep, same]
      rw [← same, silent]
    | frame => simp [phase, Phase.isLooping] at dropped
  | running => simp [phase, Phase.isRunning] at halts
  | scheduled => simp [phase, Phase.isLooping] at dropped
  | resting => simp [phase, Phase.isLooping] at dropped
  | crashed => simp [phase] at wakes
  | ended => simp [phase] at wakes

end GoingOn

/-- A move that can be made, with what made it possible. -/
inductive Made (e : Engine) : Move → Engine → Prop where
  | execute (source : String) (free : e.busy = false) : Made e (.execute source) (e.execute source)
  | stop (free : e.busy = false) : Made e .stop e.stop
  | device (d : DeviceEvent) : Made e (.device d) { e with devices := e.devices.receive d }
  | answer {order : Nat} {r : Run} {stage : Stage} (reply : Option String)
      (found : e.run? order = some r) (asks : r.phase = .waiting stage (.reply none)) :
      Made e (.answer order reply)
        (e.setRun order { r with phase := .waiting stage (.reply (some reply)) })
  | clock (time : Nat) : Made e (.clock time) { e with now := max e.now time }
  | poll {order : Nat} {r : Run} {time : Nat} (found : e.run? order = some r)
      (wakes : r.wake? = some time) : Made e (.poll order) (e.goOn order r)

/-- The cases of a move that can be made. -/
theorem made_of_move? {m : Move} (made : e.move? m = some next) : Made e m next := by
  cases m with
  | execute source =>
    simp only [move?, Option.ite_none_left_eq_some] at made
    obtain ⟨free, made⟩ := made
    obtain rfl := Option.some.inj made
    exact .execute source (by simpa using free)
  | stop =>
    simp only [move?, Option.ite_none_left_eq_some] at made
    obtain ⟨free, made⟩ := made
    obtain rfl := Option.some.inj made
    exact .stop (by simpa using free)
  | device d =>
    simp only [move?, Option.ite_none_left_eq_some] at made
    obtain ⟨-, made⟩ := made
    obtain rfl := Option.some.inj made
    exact .device d
  | answer order reply =>
    simp only [move?, Option.ite_none_left_eq_some, answer?, Option.bind_eq_bind,
      Option.bind_eq_some_iff] at made
    obtain ⟨-, r, found, made⟩ := made
    split at made
    · obtain rfl := Option.some.inj made
      exact .answer reply found (by assumption)
    · cases made
  | clock time =>
    obtain rfl := Option.some.inj made
    exact .clock time
  | poll order =>
    simp only [move?, poll?, Option.bind_eq_bind, Option.bind_eq_some_iff,
      Option.ite_none_right_eq_some] at made
    obtain ⟨r, found, time, wakes, -, made⟩ := made
    obtain rfl := Option.some.inj made
    exact .poll found wakes

section Events

theorem moveOr_eq_of_move? {m : Move} (made : e.move? m = some next) : e.moveOr m = next := by
  rw [moveOr, made, Option.getD_some]

theorem reaches_moveOr (e : Engine) (m : Move) : e.Reaches (e.moveOr m) := by
  rw [moveOr]
  cases made : e.move? m with
  | none => exact .refl
  | some next => exact .single ⟨m, made⟩

theorem reaches_advanceTo (fuel target : Nat) (e : Engine) : e.Reaches (advanceTo fuel target e) := by
  induction fuel generalizing e with
  | zero => exact .refl
  | succ fuel ih =>
    rw [advanceTo]
    split
    · split
      · exact ((reaches_moveOr e _).trans (reaches_moveOr _ _)).trans (ih _)
      · exact reaches_moveOr e _
    · exact reaches_moveOr e _

/-- All that a display can do to an engine is made of moves. -/
theorem reaches_handle (e : Engine) (event : EngineEvent) : e.Reaches (e.handle event) := by
  refine Relation.ReflTransGen.trans ?_ (reaches_advanceTo _ _ _)
  cases event with
  | execute | stop | device => exact reaches_moveOr e _
  | sleep => exact reaches_advanceTo _ _ _
  | reply =>
    rw [apply]
    split
    · exact reaches_moveOr e _
    · exact .refl

end Events

/-- In a free engine every run has halted. -/
theorem halted_of_free (free : e.busy = false) (found : e.run? order = some r) : r.phase.isRunning = false := by
  rw [busy, Option.isSome_eq_false_iff, Option.isNone_iff_eq_none, busy?,
    List.findIdx?_eq_none_iff] at free
  rw [run?, Option.join_eq_some_iff] at found
  simpa using free _ (List.mem_of_getElem? found)

section Teardown

variable (e : Engine)

/-- Tearing down touches the runs and the status only. -/
theorem teardown_eq : e.teardown = { e with status := .idle, runs := e.teardown.runs } := by
  rw [teardown]
  split <;> rfl

@[simp] theorem teardown_config : e.teardown.config = e.config := by rw [teardown_eq]

@[simp] theorem teardown_now : e.teardown.now = e.now := by rw [teardown_eq]

@[simp] theorem teardown_status : e.teardown.status = .idle := by rw [teardown_eq]

@[simp] theorem teardown_current : e.teardown.current = e.current := by rw [teardown_eq]

@[simp] theorem teardown_log : e.teardown.log = e.log := by
  rw [teardown_eq]
  rfl

@[simp] theorem teardown_length : e.teardown.runs.length = e.runs.length := by
  rw [teardown]
  split <;> simp

/-- Only the current run is cancelled; earlier ones stand where they stood. -/
theorem teardown_run? (order : Nat) :
    e.teardown.run? order =
      if e.current = some order then (e.run? order).map Run.tearDown else e.run? order := by
  unfold teardown
  cases current : e.current with
  | none => simp [run?]
  | some k =>
    simp only [run?, List.getElem?_modify, Option.some.injEq]
    by_cases same : k = order
    · subst same
      cases e.runs[k]? with
      | none => simp
      | some slot => cases slot <;> simp
    · simp [same]

end Teardown

/-- Room for a new order is made on its own account. -/
theorem clear_snd (e : Engine) :
    e.clear.2.runs = e.teardown.runs ∧ e.clear.2.current = e.current ∧ e.clear.2.status = .idle ∧
      ∃ hosted : List HostEvent, e.clear.2.log =
        e.log ++ .notice e.runs.length .running :: hosted.map (.host e.runs.length) := by
  refine ⟨rfl, teardown_current e, teardown_status e,
    (Canvas.fresh e.teardown.config e.teardown.devices.discardClicks.mouse).takeOutbox.1, ?_⟩
  have handed : e.clear.2.log = (e.teardown.put (.notice e.runs.length .running)).log ++ _ :=
    log_hand _ _ _
  rw [handed, log_put, teardown_log, List.append_assoc]
  rfl

/-- The run of a sketch before its first step. -/
def openingRun (source : String) (program : Program) (config : Config) (canvas : Canvas) : Run :=
  let script := Script.ofProgram program config.maxCallDepth
  { source, script, frameFunction := program.frameFunction?, machine := .start script canvas
    phase := .running .opening, cancelled := false }

/-- Starts what came of reading and checking a sketch, in place of the current one. -/
def launch (e : Engine) (source : String) : Except (List Diagnostic) (Program × List Diagnostic) → Engine
  | .error errors =>
    { (e.clear.2.put (.notice e.runs.length (.rejected errors))).put
        (.completed e.runs.length (.rejected errors)) with
      runs := e.clear.2.runs ++ [none] }
  | .ok (program, warnings) =>
    { e.clear.2.put (.notice e.runs.length (.warned warnings)) with
      runs := e.clear.2.runs ++ [some (openingRun source program e.clear.2.config e.clear.1)]
      current := some e.runs.length
      status := .executing }

theorem execute_eq_launch (e : Engine) (source : String) : e.execute source = e.launch source (compile source) := by
  rw [execute]
  cases compile source <;> rfl

/-- A new order is rejected, or its run begins. -/
def Launches (e next : Engine) : Prop :=
  ∃ more, next.log = e.log ++ more ∧ (∀ o ∈ more, o.order = e.runs.length) ∧
    ((∃ errors, noticesOf e.runs.length more = [.running, .rejected errors] ∧
      next.runs = e.teardown.runs ++ [none] ∧ next.current = e.current ∧ next.status = .idle) ∨
    (∃ r warnings, noticesOf e.runs.length more = [.running, .warned warnings] ∧
      next.runs = e.teardown.runs ++ [some r] ∧ next.current = some e.runs.length ∧ next.status = .executing ∧
      r.phase = .running .opening ∧ r.cancelled = false ∧ r.Kept))

/-- What comes of a sketch depends on whether it is accepted. -/
theorem launch_cases (e : Engine) (source : String)
    (compiled : Except (List Diagnostic) (Program × List Diagnostic)) : e.Launches (e.launch source compiled) := by
  obtain ⟨runs, current, status, hosted, log⟩ := clear_snd e
  cases compiled with
  | error errors =>
    refine ⟨.notice e.runs.length .running :: (hosted.map (.host e.runs.length) ++
      [.notice e.runs.length (.rejected errors), .completed e.runs.length (.rejected errors)]),
      ?_, ?_, .inl ⟨errors, by simp, congrArg (· ++ [none]) runs, current, status⟩⟩
    · change ((e.clear.2.put _).put _).log = _
      simp [log]
    · simp [or_imp, forall_and, Output.order]
  | ok compiled =>
    obtain ⟨program, warnings⟩ := compiled
    refine ⟨.notice e.runs.length .running :: (hosted.map (.host e.runs.length) ++
      [.notice e.runs.length (.warned warnings)]),
      ?_, ?_, .inr ⟨_, warnings, by simp, congrArg (· ++ [_]) runs, rfl, rfl, rfl, rfl, rfl, rfl⟩⟩
    · change (e.clear.2.put _).log = _
      simp [log]
    · simp [or_imp, forall_and, Output.order]

theorem execute_cases (e : Engine) (source : String) : e.Launches (e.execute source) := by
  rw [execute_eq_launch]
  exact launch_cases e source _

/-- A new order gets the place behind all others. -/
theorem execute_runs (e : Engine) (source : String) : ∃ slot, (e.execute source).runs = e.teardown.runs ++ [slot] := by
  obtain ⟨-, -, -, ⟨-, -, runs, -⟩ | ⟨r, -, -, runs, -⟩⟩ := execute_cases e source
  · exact ⟨none, runs⟩
  · exact ⟨some r, runs⟩

/-- A new order leaves the other ones as tearing down leaves them. -/
theorem execute_run?_of_ne (e : Engine) (source : String) (other : order ≠ e.runs.length) :
    (e.execute source).run? order = e.teardown.run? order := by
  obtain ⟨slot, runs⟩ := execute_runs e source
  rw [run?_eq_of_append runs, teardown_length, if_neg other]

theorem execute_run? (e : Engine) (source : String) (inside : order < e.runs.length) :
    (e.execute source).run? order = e.teardown.run? order :=
  execute_run?_of_ne e source (Nat.ne_of_lt inside)

theorem stop_run? (e : Engine) (order : Nat) : e.stop.run? order = e.teardown.run? order := by
  rw [stop]
  split <;> rfl

end Engine

end Sketch
