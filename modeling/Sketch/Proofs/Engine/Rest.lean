import Sketch.Proofs.Engine.Invariant
import Sketch.Proofs.Engine.Offset

/-!
How an engine comes to rest. What goes on by itself does so in a fixed order until nothing is due, whatever patience
there is for it.
-/

namespace Sketch

namespace Engine

/-! ### What goes on by itself -/

/-- The next thing that happens by itself until a time. -/
def tick? (target : Nat) (e : Engine) : Option Engine :=
  match e.next? with
  | some (time, order) =>
    if time ≤ target then some ((e.moveOr (.clock time)).moveOr (.poll order)) else none
  | none => none

theorem advanceTo_succ (fuel target : Nat) (e : Engine) :
    advanceTo (fuel + 1) target e =
      match e.tick? target with
      | some next => advanceTo fuel target next
      | none => e.moveOr (.clock target) := by
  rw [advanceTo, tick?]
  cases e.next? with
  | none => rfl
  | some wake =>
    dsimp only
    split <;> rfl

/-- An engine comes to rest at a time, after all that happens by itself until then. -/
inductive Comes (target : Nat) : Engine → Engine → Prop
  | rests {e : Engine} (rest : e.tick? target = none) : Comes target e (e.moveOr (.clock target))
  | ticks {e next later : Engine} (tick : e.tick? target = some next) (comes : Comes target next later) :
      Comes target e later

variable {target order time : Nat} {e next later : Engine} {r : Run}

theorem Comes.unique {first second : Engine} (one : Comes target e first)
    (two : Comes target e second) : first = second := by
  induction one with
  | rests rest =>
    cases two with
    | rests => rfl
    | ticks tick => rw [rest] at tick; cases tick
  | ticks tick _ ih =>
    cases two with
    | rests rest => rw [rest] at tick; cases tick
    | ticks tick' comes =>
      rw [tick] at tick'
      cases tick'
      exact ih comes

/-- When the run of an order goes on by itself. -/
def wake? (e : Engine) (order : Nat) : Option Nat := (e.run? order).bind Run.wake?

theorem earliest_of_zero (rest : List (Nat × Nat)) : earliest ((0, order) :: rest) = some (0, order) := by
  rw [earliest]
  cases earliest rest with
  | none => rfl
  | some other => exact if_neg (Nat.not_lt_zero _)

/-- Where all runs but the last go on at once, the first one that does is the next. -/
theorem earliest_eq_some_iff {runs : List (Option Run)} {first : Nat}
    (atOnce : ∀ slot ∈ runs.dropLast, ∀ time, slot.bind Run.wake? = some time → time = 0) (time order : Nat) :
    earliest ((runs.zipIdx first).filterMap fun (r, order) => (r.bind Run.wake?).map (·, order)) =
        some (time, order) ↔
      ∃ i, order = first + i ∧ runs[i]?.join.bind Run.wake? = some time ∧
        ∀ j < i, runs[j]?.join.bind Run.wake? = none := by
  induction runs generalizing first with
  | nil => simp [earliest]
  | cons slot runs ih =>
    rw [List.zipIdx_cons]
    cases wakes : slot.bind Run.wake? with
    | none =>
      have rest : ∀ slot ∈ runs.dropLast, ∀ time, slot.bind Run.wake? = some time → time = 0 := by
        intro slot' mem
        apply atOnce slot'
        cases runs with
        | nil => cases mem
        | cons next runs => exact List.mem_cons_of_mem slot mem
      rw [List.filterMap_cons_none (by simp [wakes]), ih rest]
      constructor
      · rintro ⟨i, rfl, here, before⟩
        refine ⟨i + 1, by omega, here, ?_⟩
        intro j earlier
        cases j with
        | zero => exact wakes
        | succ j => exact before j (Nat.lt_of_succ_lt_succ earlier)
      · rintro ⟨i, rfl, here, before⟩
        cases i with
        | zero => cases wakes.symm.trans here
        | succ i => exact ⟨i, by omega, here, fun j earlier => before (j + 1) (Nat.succ_lt_succ earlier)⟩
    | some soon =>
      rw [List.filterMap_cons_some (b := (soon, first)) (by simp [wakes])]
      have next : earliest ((soon, first) :: (runs.zipIdx (first + 1)).filterMap fun (r, order) =>
          (r.bind Run.wake?).map (·, order)) = some (soon, first) := by
        cases runs with
        | nil => rfl
        | cons other runs =>
          rw [atOnce slot List.mem_cons_self soon wakes]
          exact earliest_of_zero _
      rw [next]
      constructor
      · intro same
        cases same
        exact ⟨0, rfl, wakes, fun j earlier => absurd earlier (Nat.not_lt_zero j)⟩
      · rintro ⟨i, rfl, here, before⟩
        cases i with
        | zero =>
          cases wakes.symm.trans here
          rfl
        | succ i => cases wakes.symm.trans (before 0 (Nat.succ_pos i))

/-- A run that was torn down goes on at once, if it does. -/
theorem Sound.wake?_of_cancelled (sound : Sound e)
    (found : e.run? order = some r) (gone : r.cancelled = true) (wakes : r.wake? = some time) : time = 0 := by
  have dropped := (sound.dropped found gone).2
  apply Run.wake?_of_not_isTimed _ wakes
  rw [Run.isTimed]
  split
  · rw [gone]
    rfl
  · rename_i resting
    rw [resting] at dropped
    cases dropped
  · rfl

/-- In an engine that is not at work, the first order that goes on is the next. -/
theorem Sound.next?_eq_some_iff (sound : Sound e) (free : e.busy = false) (time order : Nat) :
    e.next? = some (time, order) ↔ e.wake? order = some time ∧ ∀ j < order, e.wake? j = none := by
  have atOnce : ∀ slot ∈ e.runs.dropLast, ∀ time, slot.bind Run.wake? = some time → time = 0 := by
    intro slot mem time wakes
    obtain ⟨i, here⟩ := List.getElem?_of_mem mem
    obtain ⟨r, rfl, wakes⟩ := Option.bind_eq_some_iff.mp wakes
    rw [List.getElem?_dropLast] at here
    split at here
    case isFalse => cases here
    case isTrue inner =>
      have found : e.run? i = some r := by
        rw [run?, here]
        rfl
      cases gone : r.cancelled with
      | true => exact sound.wake?_of_cancelled found gone wakes
      | false =>
        have last := (sound.latest found gone).2
        omega
  have idle : e.busy? = none := by
    rw [busy, Option.isSome_eq_false_iff, Option.isNone_iff_eq_none] at free
    exact free
  rw [next?, idle]
  refine (earliest_eq_some_iff atOnce time order).trans ?_
  constructor
  · rintro ⟨i, rfl, here, before⟩
    rw [Nat.zero_add]
    exact ⟨here, before⟩
  · rintro ⟨here, before⟩
    exact ⟨order, (Nat.zero_add order).symm, here, before⟩

theorem Sound.next?_isSome (sound : Sound e) (free : e.busy = false)
    (wakes : e.wake? order = some time) : ∃ time order, e.next? = some (time, order) := by
  -- The least order that goes on by itself is the next one.
  induction order using Nat.strongRecOn generalizing time with
  | ind order ih =>
    by_cases first : ∀ j < order, e.wake? j = none
    · exact ⟨time, order, (sound.next?_eq_some_iff free time order).mpr ⟨wakes, first⟩⟩
    · simp only [not_forall] at first
      obtain ⟨j, earlier, some⟩ := first
      obtain ⟨soon, wakes⟩ := Option.ne_none_iff_exists'.mp some
      exact ih j earlier wakes

/-- In an engine at work, the run that works is the next. -/
theorem Sound.next?_of_busy (sound : Sound e) (busy : e.busy = true) :
    ∃ order r, e.next? = some (0, order) ∧ e.run? order = some r ∧ r.phase.isRunning = true ∧
      order + 1 = e.runs.length := by
  obtain ⟨order, here⟩ := Option.isSome_iff_exists.mp busy
  have next : e.next? = some (0, order) := by rw [next?, here]
  obtain ⟨inside, works, -⟩ := List.findIdx?_eq_some_iff_getElem.mp here
  obtain ⟨r, slot, running⟩ := (Option.any_eq_true _ _).mp works
  have found : e.run? order = some r := by
    rw [run?, List.getElem?_eq_getElem inside, slot]
    rfl
  refine ⟨order, r, next, found, running, ?_⟩
  cases gone : r.cancelled with
  | true =>
    rw [(sound.dropped found gone).1] at running
    cases running
  | false => exact (sound.latest found gone).2

theorem wake?_of_running (running : r.phase.isRunning = true) : r.wake? = some 0 ∧ r.isTimed = false := by
  rw [Run.wake?, Run.isTimed]
  cases phase : r.phase with
  | running => exact ⟨rfl, rfl⟩
  | waiting | scheduled | resting | crashed | ended =>
    rw [phase] at running
    cases running

/-- A run that is due and whose turn it is goes on. -/
theorem moveOr_poll (found : e.run? order = some r)
    (due : r.isDue e.now = true) (turn : r.phase.isRunning = true ∨ e.busy = false) :
    e.moveOr (.poll order) = e.goOn order r := by
  rw [moveOr, move?, poll?_eq found, if_pos]
  · rfl
  · refine ⟨due, turn.imp_right fun free => ?_⟩
    rw [free]
    rfl

theorem tick?_isSome (next : e.next? = some (time, order))
    (intime : time ≤ target) : ∃ later, e.tick? target = some later := by
  rw [tick?, next]
  exact ⟨_, if_pos intime⟩

/-- What happens next by itself is that one run goes on. -/
theorem Sound.tick?_eq_some (sound : Sound e) (tick : e.tick? target = some next) :
    ∃ order time r, e.next? = some (time, order) ∧ time ≤ target ∧ e.run? order = some r ∧
      r.wake? = some time ∧ next = { e with now := max e.now time }.goOn order r := by
  rw [tick?] at tick
  split at tick
  case h_2 => cases tick
  case h_1 time order first =>
    split at tick
    case isFalse => cases tick
    case isTrue intime =>
      cases tick
      have goes {r : Run} (found : e.run? order = some r) (wakes : r.wake? = some time)
          (turn : r.phase.isRunning = true ∨ e.busy = false) :
          (e.moveOr (.clock time)).moveOr (.poll order) =
            { e with now := max e.now time }.goOn order r := by
        have due : r.isDue (max e.now time) = true := by
          rw [Run.isDue, wakes]
          exact decide_eq_true (Nat.le_max_right _ _)
        exact moveOr_poll (e := { e with now := max e.now time }) found due turn
      cases busy : e.busy with
      | true =>
        obtain ⟨order', r, first', found, running, -⟩ := sound.next?_of_busy busy
        cases first.symm.trans first'
        have wakes := (wake?_of_running running).1
        exact ⟨order, 0, r, first, intime, found, wakes, goes found wakes (.inl running)⟩
      | false =>
        obtain ⟨here, -⟩ := (sound.next?_eq_some_iff busy time order).mp first
        obtain ⟨r, found, wakes⟩ := Option.bind_eq_some_iff.mp here
        exact ⟨order, time, r, first, intime, found, wakes, goes found wakes (.inr busy)⟩

theorem reaches_tick? (tick : e.tick? target = some next) : e.Reaches next := by
  rw [tick?] at tick
  split at tick
  case h_2 => cases tick
  case h_1 =>
    split at tick
    case isFalse => cases tick
    case isTrue =>
      cases tick
      exact (reaches_moveOr _ _).trans (reaches_moveOr _ _)

theorem Sound.tick? (sound : Sound e) (tick : e.tick? target = some next) : Sound next :=
  sound.reaches (reaches_tick? tick)

theorem Comes.reaches (comes : Comes target e later) : e.Reaches later := by
  induction comes with
  | rests => exact reaches_moveOr _ _
  | ticks tick _ ih => exact (reaches_tick? tick).trans ih

/-! ### What stays -/

/-- What an engine finds around it. Presses that no frame has taken do not count. -/
def surroundings (e : Engine) : Config × Devices × Nat := (e.config, e.devices.discardClicks, e.now)

section Surroundings

variable (e : Engine) (order : Nat) (r : Run)

/-- A frame takes the presses at most. -/
theorem change_devices {c : Change} (changes : e.change? r = some c) :
    c.devices.discardClicks = e.devices.discardClicks := by
  cases changes_of_change? changes with
  | stopped => rw [(closing_parts e r _ _ .stopped).1]
  | halted => rw [halting_devices]
  | resumed | scheduled | begins => rfl

/-- A run that goes on leaves its surroundings as they are. -/
theorem goOn_surroundings : (e.goOn order r).surroundings = e.surroundings := by
  rw [goOn_eq]
  cases changes : e.change? r with
  | none => rfl
  | some c => exact congrArg (fun devices => (e.config, devices, e.now)) (change_devices e r changes)

theorem goOn_config : (e.goOn order r).config = e.config := congrArg Prod.fst (goOn_surroundings e order r)

theorem goOn_now : (e.goOn order r).now = e.now :=
  congrArg (fun around => around.2.2) (goOn_surroundings e order r)

theorem moveOr_poll_surroundings : (e.moveOr (.poll order)).surroundings = e.surroundings := by
  rw [moveOr]
  cases made : e.move? (.poll order) with
  | none => rfl
  | some next =>
    cases made_of_move? made with
    | poll => exact goOn_surroundings e order _

end Surroundings

/-- A clock that does not move on changes nothing. -/
theorem moveOr_clock_of_le (late : time ≤ e.now) : e.moveOr (.clock time) = e := by
  have step : e.moveOr (.clock time) = { e with now := max e.now time } := rfl
  rw [step, Nat.max_eq_left late]

theorem tick?_eq_none_iff (target : Nat) (e : Engine) : e.tick? target = none ↔ e.next?.all (target < ·.1) = true := by
  rw [tick?]
  cases e.next? with
  | none => exact iff_of_true rfl rfl
  | some wake =>
    simp only [Option.all_some, decide_eq_true_eq]
    split
    case isTrue intime =>
      refine iff_of_false ?_ (Nat.not_lt.mpr intime)
      intro none
      cases none
    case isFalse later => exact iff_of_true rfl (Nat.not_le.mp later)

/-- What goes on by itself takes no time once its time has come. -/
theorem Sound.advanceTo_now (sound : Sound e) (fuel : Nat)
    (late : target ≤ e.now) : (advanceTo fuel target e).now = e.now := by
  induction fuel generalizing e with
  | zero => rfl
  | succ fuel ih =>
    rw [advanceTo_succ]
    cases tick : e.tick? target with
    | none => exact Nat.max_eq_left late
    | some next =>
      obtain ⟨order, time, r, -, intime, -, -, same⟩ := sound.tick?_eq_some tick
      have now : next.now = e.now := by
        rw [same, goOn_now]
        exact Nat.max_eq_left (Nat.le_trans intime late)
      have rest := ih (sound.tick? tick) (now ▸ late)
      exact rest.trans now

/-- An engine that is at rest at the end has come to rest. -/
theorem comes_advanceTo (fuel : Nat)
    (rest : (advanceTo fuel target e).tick? target = none) (late : target ≤ (advanceTo fuel target e).now) :
    Comes target e (advanceTo fuel target e) := by
  induction fuel generalizing e with
  | zero =>
    have comes : Comes target e (e.moveOr (.clock target)) := .rests rest
    rw [moveOr_clock_of_le (e := e) late] at comes
    exact comes
  | succ fuel ih =>
    rw [advanceTo_succ] at rest late ⊢
    cases tick : e.tick? target with
    | none => exact .rests tick
    | some next =>
      rw [tick] at rest late
      exact .ticks tick (ih rest late)

/-- It does not matter how often an engine is told to go on. -/
theorem comes_of_advanceTo (fuel : Nat)
    (comes : Comes target (advanceTo fuel target e) later) : Comes target e later := by
  induction fuel generalizing e with
  | zero => exact comes
  | succ fuel ih =>
    rw [advanceTo_succ] at comes
    cases tick : e.tick? target with
    | some next =>
      rw [tick] at comes
      exact .ticks tick (ih comes)
    | none =>
      rw [tick] at comes
      -- The clock has no part in what happens next, so the engine is at rest again.
      have rest : (e.moveOr (.clock target)).tick? target = none := by
        rw [tick?_eq_none_iff] at tick ⊢
        exact tick
      have again : Comes target (e.moveOr (.clock target)) _ := .rests rest
      have late : target ≤ (e.moveOr (.clock target)).now := Nat.le_max_right _ _
      rw [moveOr_clock_of_le late] at again
      rw [comes.unique again]
      exact .rests tick

end Engine

/-! ### Events -/

def EngineEvent.duration : EngineEvent → Nat
  | .sleep milliseconds => milliseconds * millisecond
  | .execute _ | .stop | .device _ | .reply _ => 0

namespace Engine

/-- What an event does before anything goes on by itself. -/
def prompted (e : Engine) : EngineEvent → Engine
  | .sleep _ => e
  | .execute source => e.apply (.execute source)
  | .stop => e.apply .stop
  | .device d => e.apply (.device d)
  | .reply text => e.apply (.reply text)

def atRest (e : Engine) : Bool := e.next?.all (e.now < ·.1)

/-- Whether an event is handled to its end: nothing is due any more, and a sleep took its time. -/
def settles (e : Engine) (event : EngineEvent) : Bool :=
  (e.handle event).atRest && decide ((e.handle event).now = e.now + event.duration)

/-- Whether events are handled to their ends, one after the other. -/
def settlesAll : Engine → List EngineEvent → Bool
  | _, [] => true
  | e, event :: events => e.settles event && (e.handle event).settlesAll events

/-- Handles events one after the other. -/
def handleAll (e : Engine) (events : List EngineEvent) : Engine := events.foldl handle e

/-- Events are handled to their ends, however long it takes. -/
inductive Handled : Engine → List EngineEvent → Engine → Prop
  | nil (e : Engine) : Handled e [] e
  | cons {e next later : Engine} {event : EngineEvent} {events : List EngineEvent}
      (comes : Comes (e.now + event.duration) (e.prompted event) next) (rest : Handled next events later) :
      Handled e (event :: events) later

theorem reaches_apply (e : Engine) (event : EngineEvent) : e.Reaches (e.apply event) := by
  cases event with
  | execute | stop | device => exact reaches_moveOr e _
  | sleep => exact reaches_advanceTo _ _ _
  | reply =>
    rw [apply]
    split
    · exact reaches_moveOr e _
    · exact .refl

variable {e : Engine}

/-- An event that is handled to its end is so with more patience too. -/
theorem Sound.comes_handle (sound : Sound e) {event : EngineEvent} (settles : e.settles event = true) :
    Comes (e.now + event.duration) (e.prompted event) (e.handle event) := by
  rw [Engine.settles, Bool.and_eq_true, decide_eq_true_eq, atRest, ← tick?_eq_none_iff] at settles
  obtain ⟨rest, now⟩ := settles
  have soundApplied := sound.reaches (reaches_apply e event)
  have start : (e.apply event).now = e.now + event.duration := by
    rw [← now]
    exact (soundApplied.advanceTo_now patience (Nat.le_refl _)).symm
  have handled : e.handle event = advanceTo patience (e.now + event.duration) (e.apply event) := by
    rw [handle, start]
  have comes : Comes (e.now + event.duration) (e.apply event) (e.handle event) := by
    rw [now] at rest
    rw [handled] at rest now ⊢
    exact comes_advanceTo patience rest (Nat.le_of_eq now.symm)
  cases event with
  | execute | stop | device | reply => exact comes
  | sleep milliseconds => exact comes_of_advanceTo patience comes

theorem Sound.handled (sound : Sound e) {events : List EngineEvent}
    (settles : e.settlesAll events = true) : Handled e events (e.handleAll events) := by
  induction events generalizing e with
  | nil => exact .nil e
  | cons event events ih =>
    rw [settlesAll, Bool.and_eq_true] at settles
    have rest := ih (sound.reaches (reaches_handle e event)) settles.2
    exact .cons (sound.comes_handle settles.1) rest

theorem Handled.unique {first second : Engine} {events : List EngineEvent} (one : Handled e events first)
    (two : Handled e events second) : first = second := by
  induction one with
  | nil =>
    cases two
    rfl
  | cons comes _ ih =>
    cases two with
    | cons comes' rest =>
      cases comes.unique comes'
      exact ih rest

theorem reaches_prompted (e : Engine) (event : EngineEvent) : e.Reaches (e.prompted event) := by
  cases event with
  | sleep => exact .refl
  | execute | stop | device | reply =>
    rw [prompted]
    exact reaches_apply e _

theorem Handled.reaches {later : Engine} {events : List EngineEvent} (handled : Handled e events later) :
    e.Reaches later := by
  induction handled with
  | nil => exact .refl
  | cons comes _ ih =>
    exact ((reaches_prompted _ _).trans comes.reaches).trans ih

/-- Only the latest run is asked for an answer. -/
theorem current_of_asked? {order : Nat} (asked : e.asked? = some order) : e.current = some order := by
  rw [asked?, Option.bind_eq_bind, Option.bind_eq_some_iff] at asked
  obtain ⟨latest, current, asked⟩ := asked
  obtain ⟨r, -, asked⟩ := Option.bind_eq_some_iff.mp asked
  split at asked
  · cases asked
    exact current
  · cases asked

end Engine

end Sketch
