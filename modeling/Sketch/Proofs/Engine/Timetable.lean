import Mathlib.Data.List.Chain
import Sketch.Proofs.Engine.Chronicle
import Sketch.Proofs.Engine.Ticks

/-!
The frames of a run on the clock. Main statement: a frame starts when the one before is over, hardly less than a
period behind its start.
-/

namespace Sketch

/-! ### The pace of frames -/

/-- Nothing strikes before its time. -/
theorem le_nextMillisecond (t : Nat) : t ≤ nextMillisecond t := by
  rw [nextMillisecond, millisecond]
  omega

/-- The next frame is due a period behind the start of this one, or earlier by at most five milliseconds. -/
theorem nextDue_paces (period : Nat) {due now : Nat} (late : due ≤ now) :
    now + period ≤ nextDue period due now + 5 * millisecond ∧ nextDue period due now ≤ now + period := by
  rw [nextDue]
  split <;> omega

/-- A frame on the clock. -/
structure Beat where
  due : Nat
  starts : Nat
  /-- When it was over, if it was. -/
  ends : Option Nat
deriving DecidableEq, Repr, Inhabited

namespace Beat

def close (time : Nat) (b : Beat) : Beat := { b with ends := some time }

/-- How a frame `b'` comes behind a frame `b` that was over at a time. -/
structure Leads (period ended : Nat) (prompt : Prop) (b b' : Beat) : Prop where
  ends : b.ends = some ended
  lasts : b.starts ≤ ended
  apart : ended ≤ b'.starts
  punctual : b.due ≤ b.starts
  due : b'.due = nextDue period b.due b.starts
  late : nextMillisecond b'.due ≤ b'.starts
  prompt : prompt → b'.starts = max (nextMillisecond b'.due) ended

theorem Leads.paces {period ended : Nat} {prompt : Prop} {b b' : Beat} (leads : b.Leads period ended prompt b') :
    b.starts + period ≤ b'.starts + 5 * millisecond := by
  calc b.starts + period
      ≤ nextDue period b.due b.starts + 5 * millisecond := (nextDue_paces period leads.punctual).1
    _ = b'.due + 5 * millisecond := by rw [leads.due]
    _ ≤ b'.starts + 5 * millisecond := Nat.add_le_add_right (Nat.le_trans (le_nextMillisecond _) leads.late) _

end Beat

/-! ### What a run does to its phase -/

namespace Phase

/-- The stage at which a run is, if it is at one. -/
def stage? : Phase → Option Stage
  | .waiting stage _ | .running stage => some stage
  | .scheduled _ | .resting .. | .crashed | .ended => none

/-- How the phase of a run goes on at a time. -/
inductive Proceeds (config : Config) (now : Nat) : Phase → Phase → Prop where
  /-- A stage goes on. -/
  | stays {before after : Phase} {stage : Stage} (was : before.stage? = some stage) (is : after.stage? = some stage) :
      Proceeds config now before after
  /-- The opening is over, and frames are to follow. -/
  | schedules {before : Phase} (was : before.stage? = some .opening) (function : String) :
      Proceeds config now before (.scheduled function)
  | measures (function : String) {period : Nat} (usable : config.framePeriod? = some period) :
      Proceeds config now (.scheduled function) (.resting ⟨function, period⟩ now)
  /-- A frame begins. -/
  | begins {ticker : Ticker} {due : Nat} (late : nextMillisecond due ≤ now) :
      Proceeds config now (.resting ticker due) (.running (.frame ticker (nextDue ticker.period due now)))
  /-- A frame is over. -/
  | rests {before : Phase} {ticker : Ticker} {due : Nat} (was : before.stage? = some (.frame ticker due)) :
      Proceeds config now before (.resting ticker due)
  | ends {before after : Phase} (done : after.isOver = true) : Proceeds config now before after

end Phase

namespace Engine

/-- A run is put in the place of an order whose phase goes on from another one. -/
def Steps (e : Engine) (order : Nat) (before : Phase) (next : Engine) : Prop :=
  ∃ r, next.runs = e.runs.set order (some r) ∧ before.Proceeds e.config e.now r.phase

section Stepping

variable {e : Engine} {order : Nat} {r : Run} {before : Phase}

variable {config : Config} {now : Nat} {stage : Stage}

theorem closing_proceeds (was : before.stage? = some stage) (m : Machine) (ending : Ending) :
    before.Proceeds config now (e.closing r stage m ending).phase := by
  cases stage with
  | opening =>
    rw [closing, opening.eq_def]
    split
    case isTrue => exact .ends rfl
    case isFalse =>
      split
      case h_2 function _ => exact .schedules was function
      all_goals exact .ends rfl
  | frame ticker due =>
    cases ending with
    | well => exact .rests was
    | stopped => exact .ends rfl
    | failed f =>
      rw [closing, ticking]
      split <;> exact .ends rfl

theorem halting_proceeds (was : before.stage? = some stage) (halt : Step) :
    before.Proceeds config now (e.halting r stage halt).phase := by
  cases halt with
  | next m => exact .stays was rfl
  | finished m => exact closing_proceeds was m .well
  | failed f m => exact closing_proceeds was m (.failed f)
  | crashed m => cases stage <;> exact .ends rfl
  | paused p m =>
    rw [halting]
    split
    case isTrue => exact closing_proceeds was _ .stopped
    case isFalse => exact .stays was rfl

theorem firstFrame_proceeds (function : String) :
    (Phase.scheduled function).Proceeds e.config e.now (e.firstFrame function) := by
  rw [firstFrame]
  split
  case h_3 period _ usable => exact .measures function usable
  all_goals exact .ends rfl

/-- A run that goes on is in one of the next phases. -/
theorem goOn_steps {time : Nat} (wakes : r.wake? = some time) (intime : time ≤ e.now) :
    Steps e order r.phase (e.goOn order r) := by
  obtain ⟨c, changes, goes⟩ := goOn_of_wakes order wakes
  refine ⟨r.changed c, congrArg Engine.runs goes, ?_⟩
  rw [Run.wake?] at wakes
  cases changes_of_change? changes with
  | stopped waits => exact closing_proceeds (congrArg Phase.stage? waits) _ .stopped
  | resumed waits => exact .stays (congrArg Phase.stage? waits) rfl
  | halted works => exact halting_proceeds (congrArg Phase.stage? works) _
  | @scheduled function waits =>
    rw [waits]
    exact firstFrame_proceeds function
  | begins rests =>
    rw [rests] at wakes ⊢
    obtain rfl := Option.some.inj wakes
    exact .begins intime

end Stepping

theorem poll_intime {e next : Engine} {order : Nat} (made : e.move? (.poll order) = some next) :
    ∃ r time, e.run? order = some r ∧ r.wake? = some time ∧ time ≤ e.now ∧ next = e.goOn order r := by
  simp only [move?, poll?, Option.bind_eq_bind, Option.bind_eq_some_iff, Option.ite_none_right_eq_some] at made
  obtain ⟨r, found, time, wakes, allowed, made⟩ := made
  exact ⟨r, time, found, wakes, allowed.1, (Option.some.inj made).symm⟩

end Engine

/-! ### Timetables -/

namespace Timetable

/-- What a timetable tells when the phase of its run changes at a time. -/
def turn (now : Nat) (table : List Beat) : Phase → Phase → List Beat
  | .resting _ due, .running (.frame ..) => table ++ [⟨due, now, none⟩]
  | before, after =>
    if before.isTicking && !after.isTicking then table.dropLast ++ (table.getLast?.map (Beat.close now)).toList
    else table

/-- What is told of the frames of an order when an engine becomes another one. -/
def move (order : Nat) (table : List Beat) (e next : Engine) : List Beat :=
  match e.run? order, next.run? order with
  | some r, some r' => turn next.now table r.phase r'.phase
  | _, _ => table

/-- What is told of the frames of an order while moves are made one after the other. -/
def play (order : Nat) : List Beat → Engine → List Move → List Beat
  | table, _, [] => table
  | table, e, m :: moves => play order (move order table e (e.moveOr m)) (e.moveOr m) moves

/-- Each frame comes behind the one before. -/
def Paced (config : Config) (prompt : Prop) : List Beat → Prop :=
  List.IsChain fun b b' => ∃ period ended, config.framePeriod? = some period ∧ b.Leads period ended prompt b'

/-- A timetable is in line with the phase of its run at a time. -/
inductive Fits (config : Config) (prompt : Prop) (now : Nat) : List Beat → Phase → Prop where
  /-- There was no frame yet. -/
  | opening {phase : Phase} (early : phase.stage? = some .opening) : Fits config prompt now [] phase
  | scheduled (function : String) : Fits config prompt now [] (.scheduled function)
  /-- The first frame is to come. -/
  | first {ticker : Ticker} {due : Nat} (period : config.framePeriod? = some ticker.period)
      (soon : prompt → now ≤ nextMillisecond due) : Fits config prompt now [] (.resting ticker due)
  /-- Another frame is to come. -/
  | resting {past : List Beat} {b : Beat} {ended : Nat} {ticker : Ticker}
      (period : config.framePeriod? = some ticker.period) (paced : Paced config prompt (past ++ [b]))
      (ends : b.ends = some ended) (lasts : b.starts ≤ ended) (punctual : b.due ≤ b.starts) (was : ended ≤ now)
      (soon : prompt → now ≤ max (nextMillisecond (nextDue ticker.period b.due b.starts)) ended) :
      Fits config prompt now (past ++ [b]) (.resting ticker (nextDue ticker.period b.due b.starts))
  /-- A frame is under way. -/
  | ticking {past : List Beat} {b : Beat} {ticker : Ticker} {phase : Phase}
      (period : config.framePeriod? = some ticker.period) (paced : Paced config prompt (past ++ [b]))
      (was : b.starts ≤ now) (punctual : b.due ≤ b.starts)
      (works : phase.stage? = some (.frame ticker (nextDue ticker.period b.due b.starts))) :
      Fits config prompt now (past ++ [b]) phase
  | done {table : List Beat} {phase : Phase} (paced : Paced config prompt table) (done : phase.isOver = true) :
      Fits config prompt now table phase

section Turning

variable {config : Config} {prompt : Prop} {now : Nat} {table past : List Beat} {b : Beat} {before after : Phase}

variable {phase : Phase}

theorem isTicking_iff : phase.isTicking = true ↔ ∃ ticker due, phase.stage? = some (.frame ticker due) := by
  cases phase with
  | waiting stage | running stage => cases stage <;> simp [Phase.isTicking, Phase.stage?]
  | scheduled | resting | crashed | ended => simp [Phase.isTicking, Phase.stage?]

theorem stage?_of_isOver (done : phase.isOver = true) : phase.stage? = none ∧ phase.isTicking = false := by
  cases phase with
  | crashed | ended => exact ⟨rfl, rfl⟩
  | waiting | running | scheduled | resting => cases done

/-- Nothing is told of a stage that goes on, or of what is no frame. -/
theorem turn_eq_self (apart : before.stage? = after.stage? ∨ before.isTicking = false)
    (still : after.isTicking = true → before.isTicking = true) : turn now table before after = table := by
  unfold turn
  split
  case h_1 => cases still rfl
  case h_2 =>
    rcases apart with same | none
    · have both : before.isTicking = after.isTicking := by
        rw [Bool.eq_iff_iff, isTicking_iff, isTicking_iff, same]
      simp [both]
    · simp [none]

theorem turn_of_ticking (was : before.isTicking = true) (is : after.isTicking = false) :
    turn now (past ++ [b]) before after = past ++ [b.close now] := by
  unfold turn
  split
  case h_1 => cases was
  case h_2 => simp [was, is]

theorem paced_concat : Paced config prompt (past ++ [b]) ↔ Paced config prompt past ∧
    ∀ a ∈ past.getLast?, ∃ period ended, config.framePeriod? = some period ∧ a.Leads period ended prompt b := by
  rw [Paced, List.isChain_append]
  simp

/-- When a frame is over, it still comes behind the one before. -/
theorem Paced.close (paced : Paced config prompt (past ++ [b])) (time : Nat) :
    Paced config prompt (past ++ [b.close time]) := by
  rw [paced_concat] at paced ⊢
  refine ⟨paced.1, fun a last => ?_⟩
  obtain ⟨period, ended, usable, leads⟩ := paced.2 a last
  exact ⟨period, ended, usable, { leads with }⟩

namespace Fits

variable {ticker : Ticker} {due : Nat}

/-- A frame begins. -/
theorem begins (fits : Fits config prompt now table (.resting ticker due))
    (late : nextMillisecond due ≤ now) : Fits config prompt now (table ++ [⟨due, now, none⟩])
      (.running (.frame ticker (nextDue ticker.period due now))) := by
  have punctual : due ≤ now := Nat.le_trans (le_nextMillisecond _) late
  cases fits with
  | first period =>
    have alone : Paced config prompt ([] ++ [⟨due, now, none⟩]) := .singleton _
    exact .ticking period alone (Nat.le_refl now) punctual rfl
  | @resting past b ended _ period paced ends lasts punctual' since soon =>
    refine .ticking period (paced_concat.mpr ⟨paced, fun a last => ?_⟩) (Nat.le_refl now) punctual rfl
    rw [List.getLast?_concat, Option.mem_some_iff] at last
    subst last
    refine ⟨_, ended, period, ends, lasts, since, punctual', rfl, late, fun prompt => ?_⟩
    exact Nat.le_antisymm (soon prompt) (Nat.max_le.mpr ⟨late, since⟩)
  | opening works => cases works
  | ticking _ _ _ _ works => cases works
  | done _ done => cases done

variable (fits : Fits config prompt now table before)

include fits

theorem paced : Paced config prompt table := by
  cases fits with
  | opening | scheduled | first => exact .nil
  | resting _ paced => exact paced
  | ticking _ paced => exact paced
  | done paced => exact paced

theorem of_opening (was : before.stage? = some .opening) : table = [] := by
  cases fits with
  | opening => rfl
  | ticking _ _ _ _ works => cases works.symm.trans was
  | scheduled | first | resting => cases was
  | done _ done => cases (stage?_of_isOver done).1.symm.trans was

theorem of_frame (was : before.stage? = some (.frame ticker due)) :
    ∃ past b, table = past ++ [b] ∧ config.framePeriod? = some ticker.period ∧ Paced config prompt (past ++ [b]) ∧
      b.starts ≤ now ∧ b.due ≤ b.starts ∧ due = nextDue ticker.period b.due b.starts := by
  cases fits with
  | ticking period paced since punctual works =>
    cases works.symm.trans was
    exact ⟨_, _, rfl, period, paced, since, punctual, rfl⟩
  | opening early => cases early.symm.trans was
  | scheduled | first | resting => cases was
  | done _ done => cases (stage?_of_isOver done).1.symm.trans was

/-- A timetable goes with its run from phase to phase. -/
theorem proceeds (proceeds : before.Proceeds config now after) :
    Fits config prompt now (turn now table before after) after := by
  cases proceeds with
  | @stays _ _ stage was is =>
    have same : before.stage? = after.stage? := was.trans is.symm
    rw [turn_eq_self (.inl same) (by rw [isTicking_iff, isTicking_iff, same]; exact id)]
    cases stage with
    | opening =>
      rw [fits.of_opening was]
      exact .opening is
    | frame ticker due =>
      obtain ⟨past, b, rfl, period, paced, since, punctual, rfl⟩ := fits.of_frame was
      exact .ticking period paced since punctual is
  | schedules was function =>
    have apart : before.isTicking = false := by
      rw [Bool.eq_false_iff, ne_eq, isTicking_iff, was]
      simp
    rw [turn_eq_self (.inr apart) (by intro is; cases is), fits.of_opening was]
    exact .scheduled function
  | measures function usable =>
    cases fits with
    | scheduled => exact .first usable fun _ => le_nextMillisecond now
    | opening works => cases works
    | ticking _ _ _ _ works => cases works
    | done _ done => cases done
  | begins late => exact fits.begins late
  | rests was =>
    obtain ⟨past, b, rfl, period, paced, since, punctual, rfl⟩ := fits.of_frame was
    rw [turn_of_ticking (isTicking_iff.mpr ⟨_, _, was⟩) rfl]
    exact .resting period (paced.close now) rfl since punctual (Nat.le_refl now) fun _ => Nat.le_max_right _ _
  | ends done =>
    have apart := (stage?_of_isOver done).2
    refine .done ?_ done
    cases ticking : before.isTicking with
    | false =>
      rw [turn_eq_self (.inr ticking) (by rw [apart]; intro is; cases is)]
      exact fits.paced
    | true =>
      obtain ⟨ticker, due, was⟩ := isTicking_iff.mp ticking
      obtain ⟨past, b, rfl, -, paced, -⟩ := fits.of_frame was
      rw [turn_of_ticking ticking apart]
      exact paced.close now

/-- Time passes. A run that rests is not kept waiting if no time is passed over. -/
theorem later {now' : Nat} (passes : now ≤ now')
    (soon : prompt → ∀ ticker due, before = .resting ticker due → now' ≤ max now (nextMillisecond due)) :
    Fits config prompt now' table before := by
  cases fits with
  | opening early => exact .opening early
  | scheduled function => exact .scheduled function
  | first period early =>
    refine .first period fun prompt => ?_
    have := soon prompt _ _ rfl
    have := early prompt
    omega
  | resting period paced ends lasts punctual since early =>
    refine .resting period paced ends lasts punctual (Nat.le_trans since passes) fun prompt => ?_
    have := soon prompt _ _ rfl
    have := early prompt
    omega
  | ticking period paced since punctual works =>
    exact .ticking period paced (Nat.le_trans since passes) punctual works
  | done paced done => exact .done paced done

end Fits

end Turning

end Timetable

namespace Engine

open Timetable (Fits turn_eq_self)

/-- Whether a move passes over no time at which a run could go on by itself. -/
def Prompt (e : Engine) : Move → Prop
  | .clock time => ∀ order wake, e.wake? order = some wake → time ≤ max e.now wake
  | .execute _ | .stop | .device _ | .answer .. | .poll _ => True

/-- Moves are made on a clock that passes over nothing. -/
def Promptly : Engine → List Move → Prop
  | _, [] => True
  | e, m :: moves => e.Prompt m ∧ Promptly (e.moveOr m) moves

/-- A timetable of the run of an order, empty as long as there is none. -/
structure Timed (config : Config) (prompt : Prop) (order : Nat) (table : List Beat) (e : Engine) : Prop where
  settings : e.config = config
  fits : ∀ {r}, e.run? order = some r → Fits config prompt e.now table r.phase
  empty : e.run? order = none → table = []

section Timing

variable {config : Config} {prompt : Prop} {order : Nat} {table : List Beat} {e next : Engine}

theorem execute_now (e : Engine) (source : String) : (e.execute source).now = e.now := by
  have cleared : e.clear.2.now = e.now := teardown_now e
  rw [execute_eq_launch]
  cases compile source with
  | error errors => exact cleared
  | ok compiled => exact cleared

theorem stop_now (e : Engine) : e.stop.now = e.now := by
  rw [stop]
  split <;> exact teardown_now e

theorem Timed.new (order : Nat) (config : Config) (answers : Answers) (prompt : Prop) :
    Timed config prompt order [] (.new config answers) where
  settings := rfl
  fits := by
    intro r found
    cases found
  empty := fun _ => rfl

theorem tearDown_proceeds (r : Run) (now : Nat) : r.phase.Proceeds config now r.tearDown.phase := by
  rw [Run.tearDown]
  cases phase : r.phase with
  | waiting stage | running stage =>
    cases stage with
    | opening => exact .stays rfl rfl
    | frame => exact .ends rfl
  | scheduled | resting | crashed | ended => exact .ends rfl

/-- Nothing is told of a new order yet. -/
theorem Timed.ordered (timed : Timed config prompt e.runs.length table e) {source : String}
    (settings : (e.execute source).config = e.config) :
    Timed config prompt e.runs.length (Timetable.move e.runs.length table e (e.execute source)) (e.execute source) := by
  have none : e.run? e.runs.length = none := by
    rw [run?, List.getElem?_eq_none (Nat.le_refl _)]
    rfl
  have still : Timetable.move e.runs.length table e (e.execute source) = [] := by
    rw [Timetable.move, none]
    exact timed.empty none
  rw [still]
  refine ⟨settings.trans timed.settings, ?_, fun _ => rfl⟩
  intro r found
  obtain ⟨program, -, -, rfl⟩ := ordered_run found
  exact .opening rfl

variable (timed : Timed config prompt order table e)

include timed

/-- Time passes, if at all, and the run of the order stands as it stood. -/
theorem Timed.of_same (settings : next.config = e.config)
    (same : next.run? order = e.run? order) (passes : e.now ≤ next.now)
    (soon : prompt → ∀ wake, e.wake? order = some wake → next.now ≤ max e.now wake) :
    Timed config prompt order (Timetable.move order table e next) next := by
  have still : Timetable.move order table e next = table := by
    rw [Timetable.move, same]
    cases e.run? order with
    | none => rfl
    | some r => exact turn_eq_self (.inl rfl) id
  rw [still]
  constructor
  case settings => exact settings.trans timed.settings
  case fits =>
    rw [same]
    intro r found
    apply (timed.fits found).later passes
    intro prompt ticker due rests
    apply soon prompt
    rw [wake?, found, Option.bind_some, Run.wake?, rests]
  case empty =>
    rw [same]
    exact timed.empty

variable {r : Run}

/-- The run of the order goes on from phase to phase. -/
theorem Timed.of_proceeds {r' : Run} (settings : next.config = e.config)
    (now : next.now = e.now) (found : e.run? order = some r) (becomes : next.run? order = some r')
    (proceeds : r.phase.Proceeds e.config e.now r'.phase) :
    Timed config prompt order (Timetable.move order table e next) next := by
  rw [Timetable.move, found, becomes, now]
  constructor
  case settings => exact settings.trans timed.settings
  case fits =>
    rw [becomes, now]
    intro r'' same
    obtain rfl := Option.some.inj same
    rw [timed.settings] at proceeds
    exact (timed.fits found).proceeds proceeds
  case empty =>
    rw [becomes]
    intro none
    cases none

/-- Frames of a run that is torn down are over. -/
theorem Timed.of_teardown (settings : next.config = e.config)
    (now : next.now = e.now) (torn : next.run? order = e.teardown.run? order) :
    Timed config prompt order (Timetable.move order table e next) next := by
  have stands (same : next.run? order = e.run? order) :=
    timed.of_same settings same (Nat.le_of_eq now.symm) fun _ _ _ => now ▸ Nat.le_max_left _ _
  rw [teardown_run?] at torn
  split at torn
  case isFalse => exact stands torn
  case isTrue =>
    cases found : e.run? order with
    | none =>
      rw [found] at torn
      exact stands (torn.trans found.symm)
    | some r =>
      rw [found] at torn
      exact timed.of_proceeds settings now found torn (tearDown_proceeds r e.now)

/-- The run of some order goes on from phase to phase. -/
theorem Timed.of_steps {k : Nat}
    (settings : next.config = e.config) (now : next.now = e.now) (found : e.run? k = some r)
    (steps : Steps e k r.phase next) : Timed config prompt order (Timetable.move order table e next) next := by
  obtain ⟨r', runs, proceeds⟩ := steps
  have becomes := run?_eq_of_set (lt_of_run? found) runs order
  by_cases same : order = k
  · subst same
    rw [if_pos rfl] at becomes
    exact timed.of_proceeds settings now found becomes proceeds
  · rw [if_neg same] at becomes
    exact timed.of_same settings becomes (Nat.le_of_eq now.symm) fun _ _ _ => now ▸ Nat.le_max_left _ _

/-- A timetable is kept along every move. -/
theorem Timed.move? {m : Move} (made : e.move? m = some next)
    (soon : prompt → e.Prompt m) : Timed config prompt order (Timetable.move order table e next) next := by
  have settings : next.config = e.config := config_of_made (made_of_move? made)
  cases m with
  | poll k =>
    obtain ⟨r, time, found, wakes, intime, rfl⟩ := poll_intime made
    exact timed.of_steps settings (goOn_now e k r) found (goOn_steps wakes intime)
  | execute source =>
    cases made_of_move? made with
    | execute =>
      by_cases latest : order = e.runs.length
      · subst latest
        exact timed.ordered settings
      · exact timed.of_teardown settings (execute_now e source) (execute_run?_of_ne e source latest)
  | stop =>
    cases made_of_move? made with
    | stop => exact timed.of_teardown settings (stop_now e) (stop_run? e order)
  | device d =>
    cases made_of_move? made with
    | device => exact timed.of_same settings rfl (Nat.le_refl _) fun _ _ _ => Nat.le_max_left _ _
  | clock time =>
    cases made_of_move? made with
    | clock =>
      refine timed.of_same settings rfl (Nat.le_max_left _ _) fun prompt wake wakes => ?_
      exact Nat.max_le.mpr ⟨Nat.le_max_left _ _, soon prompt order wake wakes⟩
  | answer k reply =>
    cases made_of_move? made with
    | @answer _ r stage _ found asks =>
      exact timed.of_steps settings rfl found ⟨_, rfl, .stays (congrArg Phase.stage? asks) rfl⟩

/-- A timetable that is kept while moves are made. -/
theorem Timed.play {moves : List Move} (played : e.play? moves = some next) (soon : prompt → e.Promptly moves) :
    Timed config prompt order (Timetable.play order table e moves) next := by
  induction moves generalizing e table with
  | nil =>
    cases played
    exact timed
  | cons m moves ih =>
    rw [play?_cons, Option.bind_eq_some_iff] at played
    obtain ⟨e', made, played⟩ := played
    have step := moveOr_eq_of_move? made
    rw [Timetable.play, step]
    apply ih (timed.move? made fun prompt => (soon prompt).1) played
    intro prompt
    rw [← step]
    exact (soon prompt).2

end Timing

/-! ### Clocks that pass over nothing -/

section Clocks

variable {e : Engine}

/-- What goes on next by itself goes on before anything else does. -/
theorem Sound.next?_le (sound : Sound e) {time order : Nat} (next : e.next? = some (time, order)) {other wake : Nat}
    (wakes : e.wake? other = some wake) : time ≤ wake := by
  cases busy : e.busy with
  | true =>
    obtain ⟨order', r, first, -⟩ := sound.next?_of_busy busy
    cases next.symm.trans first
    exact Nat.zero_le _
  | false =>
    obtain ⟨here, before⟩ := (sound.next?_eq_some_iff busy time order).mp next
    rcases Nat.lt_trichotomy other order with earlier | rfl | later
    · rw [before other earlier] at wakes
      cases wakes
    · cases here.symm.trans wakes
      exact Nat.le_refl _
    · -- Only the latest order has to wait.
      obtain ⟨r, found, here⟩ := Option.bind_eq_some_iff.mp here
      obtain ⟨r', found', -⟩ := Option.bind_eq_some_iff.mp wakes
      have inside := lt_of_run? found'
      cases gone : r.cancelled with
      | true =>
        rw [sound.wake?_of_cancelled found gone here]
        exact Nat.zero_le _
      | false =>
        have := (sound.latest found gone).2
        omega

/-- An engine becomes another one by moves on a clock that passes over nothing. -/
def ReachesPromptly (e later : Engine) : Prop := ∃ moves, e.play? moves = some later ∧ e.Promptly moves

theorem promptly_append {moves moves' : List Move} {later : Engine} (played : e.play? moves = some later)
    (first : e.Promptly moves) (second : later.Promptly moves') : e.Promptly (moves ++ moves') := by
  induction moves generalizing e with
  | nil =>
    cases played
    exact second
  | cons m moves ih =>
    rw [play?_cons, Option.bind_eq_some_iff] at played
    obtain ⟨e', made, played⟩ := played
    have step := moveOr_eq_of_move? made
    rw [Promptly, step] at first
    rw [List.cons_append, Promptly, step]
    exact ⟨first.1, ih played first.2⟩

namespace ReachesPromptly

theorem refl (e : Engine) : e.ReachesPromptly e := ⟨[], rfl, trivial⟩

theorem trans {later latest : Engine} (first : e.ReachesPromptly later) (second : later.ReachesPromptly latest) :
    e.ReachesPromptly latest := by
  obtain ⟨moves, played, promptly⟩ := first
  obtain ⟨moves', played', promptly'⟩ := second
  refine ⟨moves ++ moves', ?_, promptly_append played promptly promptly'⟩
  rw [play?, List.foldlM_append]
  exact Option.bind_eq_some_iff.mpr ⟨later, played, played'⟩

theorem moveOr {m : Move} (prompt : e.Prompt m) : e.ReachesPromptly (e.moveOr m) := by
  cases made : e.move? m with
  | none =>
    rw [Engine.moveOr, made]
    exact refl e
  | some next =>
    refine ⟨[m], ?_, prompt, trivial⟩
    rw [play?_cons, Engine.moveOr, made]
    rfl

end ReachesPromptly

/-- The clock passes over nothing on its way to a time. -/
theorem Sound.reachesPromptly_advanceTo (sound : Sound e) (fuel target : Nat) :
    e.ReachesPromptly (advanceTo fuel target e) := by
  induction fuel generalizing e with
  | zero => exact .refl e
  | succ fuel ih =>
    rw [advanceTo_succ]
    cases tick : e.tick? target with
    | none =>
      apply ReachesPromptly.moveOr
      intro order wake wakes
      obtain ⟨time, first, first'⟩ : ∃ time first, e.next? = some (time, first) := by
        cases busy : e.busy with
        | true =>
          obtain ⟨first, -, next, -⟩ := sound.next?_of_busy busy
          exact ⟨0, first, next⟩
        | false => exact sound.next?_isSome busy wakes
      have late : target < time := by simpa [first'] using (tick?_eq_none_iff target e).mp tick
      have before := sound.next?_le first' wakes
      omega
    | some next =>
      refine .trans ?_ (ih (sound.tick? tick))
      rw [Engine.tick?] at tick
      split at tick
      case h_2 => cases tick
      case h_1 time order first =>
        split at tick
        case isFalse => cases tick
        case isTrue =>
          cases tick
          refine .trans (.moveOr ?_) (.moveOr trivial)
          intro other wake wakes
          exact Nat.le_trans (sound.next?_le first wakes) (Nat.le_max_right _ _)

/-- What a display does to an engine passes over no time. -/
theorem Sound.reachesPromptly_handle (sound : Sound e) (event : EngineEvent) : e.ReachesPromptly (e.handle event) := by
  refine .trans ?_ (Sound.reachesPromptly_advanceTo (sound.reaches (reaches_apply e event)) _ _)
  cases event with
  | execute | stop | device => exact .moveOr trivial
  | sleep => exact sound.reachesPromptly_advanceTo _ _
  | reply =>
    rw [apply]
    split
    · exact .moveOr trivial
    · exact .refl e

theorem Sound.reachesPromptly_handleAll (sound : Sound e) (events : List EngineEvent) :
    e.ReachesPromptly (e.handleAll events) := by
  induction events generalizing e with
  | nil => exact .refl e
  | cons event events ih =>
    have rest := ih (sound.reaches (reaches_handle e event))
    exact (sound.reachesPromptly_handle event).trans rest

end Clocks

/-- Frames neither overlap nor come in bursts, however late or long the earlier ones were: a frame starts when the one
    before is over or later, and not earlier than a period less five milliseconds after that one started. On a clock
    that passes over nothing it starts with the millisecond in which it is due or with the end of the one before,
    whichever is later. Such is the clock of an engine that handles events. -/
theorem frames_neither_overlap_nor_burst (config : Config) (answers : Answers) :
    (∀ moves e, (Engine.new config answers).play? moves = some e →
      ∀ (order k : Nat) (b b' : Beat), (Timetable.play order [] (.new config answers) moves)[k]? = some b →
        (Timetable.play order [] (.new config answers) moves)[k + 1]? = some b' →
        ∃ period ended, config.framePeriod? = some period ∧
          b.ends = some ended ∧ b.starts ≤ ended ∧ ended ≤ b'.starts ∧
          b.starts + period ≤ b'.starts + 5 * millisecond ∧
          ((Engine.new config answers).Promptly moves →
            b'.starts = max (nextMillisecond (nextDue period b.due b.starts)) ended)) ∧
    ∀ events, ∃ moves, (Engine.new config answers).play? moves = some ((Engine.new config answers).handleAll events) ∧
      (Engine.new config answers).Promptly moves := by
  constructor
  · intro moves e played order k b b' here behind
    have timed := (Timed.new order config answers ((Engine.new config answers).Promptly moves)).play played id
    generalize Timetable.play order [] (.new config answers) moves = table at timed here behind
    have paced : Timetable.Paced config ((Engine.new config answers).Promptly moves) table := by
      cases found : e.run? order with
      | some r => exact (timed.fits found).paced
      | none =>
          rw [timed.empty found]
          exact .nil
    obtain ⟨inside, rfl⟩ := List.getElem?_eq_some_iff.mp behind
    obtain ⟨_, rfl⟩ := List.getElem?_eq_some_iff.mp here
    obtain ⟨period, ended, usable, leads⟩ := List.isChain_iff_getElem.mp paced k inside
    refine ⟨period, ended, usable, leads.ends, leads.lasts, leads.apart, leads.paces, fun promptly => ?_⟩
    rw [leads.prompt promptly, leads.due]
  · exact fun events => (Sound.new config answers).reachesPromptly_handleAll events

/-- The first frame of a sketch takes twenty milliseconds, and the later ones none. -/
def belated : List Move :=
  [.execute "n = 0\nfunction loop() \x7b n += 1; if n == 1 \x7b delay(0.02) \x7d \x7d", .poll 0, .poll 0, .poll 0,
    .poll 0, .clock (20 * millisecond), .poll 0, .poll 0, .poll 0, .poll 0, .clock (34 * millisecond), .poll 0]

/-- The second frame starts late, but not late enough to shift the third one, which follows it after fourteen
    milliseconds. -/
theorem third_frame_follows_soon :
    ∃ e b b' period, pristine.play? belated = some e ∧
      Timetable.play 0 [] pristine belated = [⟨0, 0, some (20 * millisecond)⟩, b, b'] ∧
      b.starts = 20 * millisecond ∧ b'.starts = 34 * millisecond ∧ pristine.config.framePeriod? = some period ∧
      b'.starts < b.starts + period ∧ b.starts + period ≤ b'.starts + 5 * millisecond := by
  have course : (pristine.play? belated).map
        (fun _ => (Timetable.play 0 [] pristine belated, pristine.config.framePeriod?)) =
      some ([⟨0, 0, some 20000000⟩, ⟨16666667, 20000000, some 20000000⟩, ⟨33333334, 34000000, none⟩],
        some 16666667) := by
    decide +kernel
  obtain ⟨e, played, course⟩ := Option.map_eq_some_iff.mp course
  obtain ⟨table, usable⟩ := Prod.mk.inj course
  obtain ⟨period, ended, usable', -, -, -, paces, -⟩ :=
    (frames_neither_overlap_nor_burst default .live).1 belated e played 0 1 _ _ (congrArg (·[1]?) table)
      (congrArg (·[2]?) table)
  cases usable.symm.trans usable'
  exact ⟨e, _, _, _, played, table, rfl, rfl, usable, by decide, paces⟩

end Engine

end Sketch
