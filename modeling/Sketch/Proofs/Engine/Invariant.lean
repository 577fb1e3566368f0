import Mathlib.Tactic.ByContra
import Sketch.Proofs.Engine.Moves

/-!
What holds of an engine at all times. The notices on an order agree with the phase of its run and with the status, as
long as the run is not cancelled.
-/

namespace Sketch

namespace Engine

/-- How far an order has come, as its notices tell. -/
inductive Chapter where
  | opening
  | looping
  | closed
deriving DecidableEq, Repr, Inhabited

/-- The status while an order is in a chapter. -/
def Chapter.status : Chapter → Status
  | .opening => .executing
  | .looping => .looping
  | .closed => .idle

/-- The notices on an order up to a chapter. -/
inductive Account : Chapter → List Notice → Prop where
  | begun (warnings : List Diagnostic) : Account .opening [.running, .warned warnings]
  | rejected (errors : List Diagnostic) : Account .closed [.running, .rejected errors]
  | started {told : List Notice} (before : Account .opening told) :
      Account .looping (told ++ [.started])
  | finished {told : List Notice} (before : Account .opening told) :
      Account .closed (told ++ [.finished])
  | failed {chapter : Chapter} {told : List Notice} (before : Account chapter told)
      (goes : chapter ≠ .closed) (f : Failure) (line : Option Nat) :
      Account .closed (told ++ [.failed f line])
  | stopped {chapter : Chapter} {told : List Notice} (before : Account chapter told)
      (goes : chapter ≠ .closed) : Account .closed (told ++ [.stopped])

def Chapter.ofStage : Stage → Chapter
  | .opening => .opening
  | .frame .. => .looping

/-- The phase of a run belongs to a chapter. A crash stays in its chapter. -/
def InChapter : Phase → Chapter → Prop
  | .waiting stage _, chapter | .running stage, chapter => chapter = .ofStage stage
  | .scheduled _, chapter | .resting .., chapter => chapter = .looping
  | .crashed, chapter => chapter ≠ .closed
  | .ended, chapter => chapter = .closed

theorem inChapter_iff_of_opening {phase : Phase} (opening : phase.isOpening) {chapter : Chapter} :
    InChapter phase chapter ↔ chapter = .opening := by
  match phase with
  | .waiting .opening _ | .running .opening => exact Iff.rfl
  | .waiting (.frame ..) _ | .running (.frame ..) => cases opening
  | .scheduled _ | .resting .. | .crashed | .ended => cases opening

theorem inChapter_iff_of_looping {phase : Phase} (looping : phase.isLooping) {chapter : Chapter} :
    InChapter phase chapter ↔ chapter = .looping := by
  match phase with
  | .waiting (.frame ..) _ | .running (.frame ..) | .scheduled _ | .resting .. => exact Iff.rfl
  | .waiting .opening _ | .running .opening => cases looping
  | .crashed | .ended => cases looping

/-- The invariant of an engine. -/
structure Sound (e : Engine) : Prop where
  kept : ∀ {order r}, e.run? order = some r → r.Kept
  /-- Only the latest order can have a run that is not cancelled. -/
  latest : ∀ {order r}, e.run? order = some r → r.cancelled = false →
    e.current = some order ∧ order + 1 = e.runs.length
  dropped : ∀ {order r}, e.run? order = some r → r.cancelled = true →
    r.phase.isRunning = false ∧ r.phase.isLooping = false
  idle : (∀ {order r}, e.run? order = some r → r.cancelled = true) → e.status = .idle
  account : ∀ {order}, order < e.runs.length → ∃ chapter, Account chapter (e.notices order) ∧
    ∀ r, e.run? order = some r → r.cancelled = false →
      InChapter r.phase chapter ∧ e.status = chapter.status
  logged : ∀ o ∈ e.log, o.order < e.runs.length

theorem notices_append {e next : Engine} {more : List Output} (log : next.log = e.log ++ more)
    (order : Nat) : next.notices order = e.notices order ++ noticesOf order more := by
  rw [notices, log, noticesOf_append, notices]

/-- A way to go on takes the notices of an order to the chapter of its new phase. -/
theorem Went.account {before after : Phase} {status status' : Status} {more : List Notice}
    (went : Went before status after status' more) {chapter : Chapter} {told : List Notice}
    (account : Account chapter told) (fits : InChapter before chapter)
    (shows : status = chapter.status) :
    ∃ chapter', Account chapter' (told ++ more) ∧ InChapter after chapter' ∧
      status' = chapter'.status := by
  have active (was : before.isOpening ∨ before.isLooping) : chapter ≠ .closed := by
    rcases was with was | was
    · rw [(inChapter_iff_of_opening was).mp fits]
      simp
    · rw [(inChapter_iff_of_looping was).mp fits]
      simp
  cases went with
  | opens was becomes =>
    have opening := (inChapter_iff_of_opening was).mp fits
    exact ⟨chapter, by simpa using account, (inChapter_iff_of_opening becomes).mpr opening, shows⟩
  | starts was becomes =>
    rw [(inChapter_iff_of_opening was).mp fits] at account
    exact ⟨.looping, .started account, (inChapter_iff_of_looping becomes).mpr rfl, rfl⟩
  | finishes was =>
    rw [(inChapter_iff_of_opening was).mp fits] at account
    exact ⟨.closed, .finished account, rfl, rfl⟩
  | loops was becomes =>
    have looping := (inChapter_iff_of_looping was).mp fits
    exact ⟨chapter, by simpa using account, (inChapter_iff_of_looping becomes).mpr looping, shows⟩
  | fails f line was => exact ⟨.closed, .failed account (active was) f line, rfl, rfl⟩
  | crashes was => exact ⟨chapter, by simpa using account, active was, shows⟩

namespace Sound

variable {e next : Engine}

theorem new (config : Config) (answers : Answers) : Sound (Engine.new config answers) where
  kept found := by simp [run?, Engine.new] at found
  latest found := by simp [run?, Engine.new] at found
  dropped found := by simp [run?, Engine.new] at found
  idle _ := rfl
  account inside := absurd inside (Nat.not_lt_zero _)
  logged := by simp [log, Engine.new]

/-- Devices and clock are no part of the invariant. -/
theorem of_same (sound : Sound e) (runs : next.runs = e.runs) (current : next.current = e.current)
    (status : next.status = e.status) (log : next.log = e.log) : Sound next := by
  have found (order : Nat) : next.run? order = e.run? order := by rw [run?, runs, run?]
  constructor
  · intro order r present
    exact sound.kept (found order ▸ present)
  · intro order r present alive
    rw [current, runs]
    exact sound.latest (found order ▸ present) alive
  · intro order r present
    exact sound.dropped (found order ▸ present)
  · intro cancelled
    rw [status]
    exact sound.idle fun present => cancelled (found _ ▸ present)
  · intro order inside
    rw [runs] at inside
    rw [notices, log, found, status]
    exact sound.account inside
  · rw [log, runs]
    exact sound.logged

section Touched

variable {order : Nat} {r r' : Run} {status : Status} {more : List Output}
variable (sound : Sound e) (found : e.run? order = some r) (touched : Touches e order r' status more next)
variable (same : r'.cancelled = r.cancelled) (kept : r'.Kept)
variable (went : r.cancelled = false → Went r.phase e.status r'.phase status (noticesOf order more))
variable (ended : r.cancelled = true → status = e.status ∧ noticesOf order more = [] ∧
  r'.phase.isRunning = false ∧ r'.phase.isLooping = false)

include found touched in
theorem run?_of_touched (k : Nat) : next.run? k = if k = order then some r' else e.run? k :=
  run?_eq_of_set (lt_of_run? found) touched.runs k

include sound found touched same went ended in
/-- The notices of every order still tell its chapter. -/
theorem account_of_touched {k : Nat} (inside : k < e.runs.length) :
    ∃ chapter, Account chapter (next.notices k) ∧
      ∀ run, next.run? k = some run → run.cancelled = false →
        InChapter run.phase chapter ∧ next.status = chapter.status := by
  rw [notices_append touched.log]
  obtain ⟨chapter, account, fits⟩ := sound.account inside
  by_cases here : k = order
  · subst k
    cases gone : r.cancelled with
    | true =>
      rw [(ended gone).2.1, List.append_nil]
      refine ⟨chapter, account, fun run present alive => ?_⟩
      rw [run?_of_touched found touched, if_pos rfl] at present
      rw [← Option.some.inj present, same, gone] at alive
      cases alive
    | false =>
      obtain ⟨inChapter, shows⟩ := fits r found gone
      obtain ⟨chapter', account', inChapter', shows'⟩ := (went gone).account account inChapter shows
      refine ⟨chapter', account', fun run present _ => ?_⟩
      rw [run?_of_touched found touched, if_pos rfl] at present
      rw [← Option.some.inj present, touched.status]
      exact ⟨inChapter', shows'⟩
  · rw [noticesOf_eq_nil_of_own touched.own here, List.append_nil]
    refine ⟨chapter, account, fun run present alive => ?_⟩
    rw [run?_of_touched found touched, if_neg here] at present
    -- Two runs that are not cancelled would both be of the latest order.
    have gone : r.cancelled = true := by
      by_contra alive'
      have := (sound.latest found (by simpa using alive')).2
      have := (sound.latest present alive).2
      omega
    rw [touched.status, (ended gone).1]
    exact fits run present alive

include sound found touched same kept went ended in
/-- The invariant is kept by a change to one run that goes on as it may. -/
theorem of_touches : Sound next := by
  have length : next.runs.length = e.runs.length := by rw [touched.runs, List.length_set]
  have others := run?_of_touched found touched
  constructor
  · intro k run present
    rw [others] at present
    split at present
    · exact Option.some.inj present ▸ kept
    · exact sound.kept present
  · intro k run present alive
    rw [touched.current, length]
    rw [others] at present
    split at present
    · obtain rfl := Option.some.inj present
      subst k
      exact sound.latest found (same ▸ alive)
    · exact sound.latest present alive
  · intro k run present cancelled
    rw [others] at present
    split at present
    · obtain rfl := Option.some.inj present
      exact (ended (same ▸ cancelled)).2.2
    · exact sound.dropped present cancelled
  · intro cancelled
    have gone : r.cancelled = true := by
      rw [← same]
      exact @cancelled order r' (by rw [others, if_pos rfl])
    rw [touched.status, (ended gone).1]
    refine sound.idle fun {k run} present => ?_
    by_cases here : k = order
    · subst k
      exact Option.some.inj (found.symm.trans present) ▸ gone
    · exact @cancelled k run (by rw [others, if_neg here, present])
  · intro k inside
    rw [length] at inside
    exact sound.account_of_touched found touched same went ended inside
  · intro o member
    rw [touched.log] at member
    rw [length]
    rcases List.mem_append.mp member with old | new
    · exact sound.logged o old
    · rw [touched.own o new]
      exact lt_of_run? found

end Touched

/-- Tearing down cancels every run that there is. -/
theorem teardown_run (sound : Sound e) (free : e.busy = false) {order : Nat} {r : Run}
    (found : e.run? order = some r) :
    ∃ torn, e.teardown.run? order = some torn ∧ torn.cancelled = true ∧ torn.machine = r.machine ∧ torn.Kept ∧
      torn.phase.isRunning = false ∧ torn.phase.isLooping = false := by
  rw [teardown_run?, found]
  have halts := halted_of_free free found
  by_cases isCurrent : e.current = some order
  · rw [if_pos isCurrent]
    refine ⟨r.tearDown, rfl, rfl, rfl, (sound.kept found).tearDown, ?_⟩
    simp only [Run.tearDown]
    cases looping : r.phase.isLooping with
    | true => exact ⟨rfl, rfl⟩
    | false => exact ⟨halts, looping⟩
  · rw [if_neg isCurrent]
    have gone : r.cancelled = true := by
      by_contra alive
      exact isCurrent (sound.latest found (by simpa using alive)).1
    exact ⟨r, rfl, gone, rfl, sound.kept found, halts, (sound.dropped found gone).2⟩

/-- Tearing down leaves the runs that there were, all of them cancelled. -/
theorem teardown_runs (sound : Sound e) (free : e.busy = false) {order : Nat} {torn : Run}
    (found : e.teardown.run? order = some torn) :
    torn.cancelled = true ∧ torn.Kept ∧ torn.phase.isRunning = false ∧
      torn.phase.isLooping = false := by
  cases was : e.run? order with
  | none =>
    rw [teardown_run?, was] at found
    simp at found
  | some r =>
    obtain ⟨torn', found', gone, -, kept, halts, dropped⟩ := sound.teardown_run free was
    obtain rfl := Option.some.inj (found'.symm.trans found)
    exact ⟨gone, kept, halts, dropped⟩

theorem teardown (sound : Sound e) (free : e.busy = false) : Sound e.teardown where
  kept found := (sound.teardown_runs free found).2.1
  latest found alive := by
    rw [(sound.teardown_runs free found).1] at alive
    cases alive
  dropped found _ := (sound.teardown_runs free found).2.2
  idle _ := teardown_status e
  account inside := by
    rw [teardown_length] at inside
    obtain ⟨chapter, account, -⟩ := sound.account inside
    refine ⟨chapter, by rwa [notices, teardown_log], fun torn found alive => ?_⟩
    rw [(sound.teardown_runs free found).1] at alive
    cases alive
  logged := by
    rw [teardown_log, teardown_length]
    exact sound.logged

/-- A status that is not idle is that of the latest order, which is not over. -/
theorem of_status (sound : Sound e) (active : e.status ≠ .idle) :
    ∃ order r chapter, e.run? order = some r ∧ r.cancelled = false ∧ order + 1 = e.runs.length ∧
      Account chapter (e.notices order) ∧ InChapter r.phase chapter ∧ chapter ≠ .closed ∧
      e.status = chapter.status := by
  have some_alive : ∃ order r, e.run? order = some r ∧ r.cancelled = false := by
    by_contra none_alive
    refine active (sound.idle fun {order r} found => ?_)
    by_contra alive
    exact none_alive ⟨order, r, found, by simpa using alive⟩
  obtain ⟨order, r, found, alive⟩ := some_alive
  obtain ⟨chapter, account, fits⟩ := sound.account (lt_of_run? found)
  obtain ⟨inChapter, shows⟩ := fits r found alive
  refine ⟨order, r, chapter, found, alive, (sound.latest found alive).2, account, inChapter, ?_, shows⟩
  rintro rfl
  exact active shows

/-- A stop keeps the invariant. -/
theorem stop (sound : Sound e) (free : e.busy = false) : Sound e.stop := by
  unfold Engine.stop
  split
  · exact sound.teardown free
  · rename_i active
    obtain ⟨order, r, chapter, found, -, isLatest, account, -, goes, -⟩ := sound.of_status active
    have torn := sound.teardown free
    have here : e.runs.length - 1 = order := by omega
    rw [here]
    have log : (e.teardown.put (.notice order .stopped)).log = e.teardown.log ++ _ := log_put _ _
    refine ⟨torn.kept, torn.latest, torn.dropped, torn.idle, fun {k} inside => ?_, ?_⟩
    · obtain ⟨chapter', account', fits⟩ := torn.account inside
      rw [notices_append log]
      by_cases same : k = order
      · subst k
        refine ⟨.closed, ?_, fun torn' found' alive => ?_⟩
        · rw [noticesOf_cons_notice, noticesOf_nil, notices, teardown_log]
          exact .stopped account goes
        · have gone := (sound.teardown_runs free found').1
          rw [gone] at alive
          cases alive
      · rw [noticesOf_eq_nil (by simpa [Output.order] using Ne.symm same), List.append_nil]
        exact ⟨chapter', account', fits⟩
    · intro o member
      rw [log] at member
      rcases List.mem_append.mp member with old | new
      · exact torn.logged o old
      · rw [List.mem_singleton.mp new]
        change order < e.teardown.runs.length
        rw [teardown_length]
        exact lt_of_run? found

/-- A new order keeps the invariant where every run is cancelled. -/
theorem ordered (sound : Sound e) {slot : Option Run} {more : List Output} {chapter : Chapter}
    (cancelled : ∀ {order r}, e.run? order = some r → r.cancelled = true)
    (runs : next.runs = e.runs ++ [slot]) (log : next.log = e.log ++ more)
    (own : ∀ o ∈ more, o.order = e.runs.length) (idle : slot = none → next.status = .idle)
    (account : Account chapter (noticesOf e.runs.length more))
    (begun : ∀ r, slot = some r → next.current = some e.runs.length ∧ r.cancelled = false ∧
      r.Kept ∧ InChapter r.phase chapter ∧ next.status = chapter.status) :
    Sound next := by
  have others := run?_eq_of_append runs
  have length : next.runs.length = e.runs.length + 1 := by simp [runs]
  constructor
  · intro order r found
    rw [others] at found
    split at found
    · exact (begun r found).2.2.1
    · exact sound.kept found
  · intro order r found alive
    rw [others] at found
    split at found
    · rename_i here
      rw [here, length]
      exact ⟨(begun r found).1, rfl⟩
    · rw [cancelled found] at alive
      cases alive
  · intro order r found gone
    rw [others] at found
    split at found
    · rw [(begun r found).2.1] at gone
      cases gone
    · exact sound.dropped found gone
  · intro allCancelled
    cases slot with
    | none => exact idle rfl
    | some r =>
      have gone := @allCancelled e.runs.length r (by rw [others, if_pos rfl])
      rw [(begun r rfl).2.1] at gone
      cases gone
  · intro order inside
    rw [notices_append log]
    by_cases here : order = e.runs.length
    · subst order
      have fresh : e.notices e.runs.length = [] :=
        noticesOf_eq_nil fun o member => Nat.ne_of_lt (sound.logged o member)
      rw [fresh, List.nil_append]
      refine ⟨chapter, account, fun r found _ => ?_⟩
      rw [others, if_pos rfl] at found
      exact (begun r found).2.2.2
    · rw [noticesOf_eq_nil_of_own own here, List.append_nil]
      obtain ⟨chapter', account', -⟩ := sound.account (by omega : order < e.runs.length)
      refine ⟨chapter', account', fun r found alive => ?_⟩
      rw [others, if_neg here] at found
      rw [cancelled found] at alive
      cases alive
  · intro o member
    rw [log] at member
    rw [length]
    rcases List.mem_append.mp member with old | new
    · exact Nat.lt_succ_of_lt (sound.logged o old)
    · rw [own o new]
      exact Nat.lt_succ_self _

/-- A new order keeps the invariant, whatever came of reading it. -/
theorem launch (sound : Sound e) (free : e.busy = false) (source : String)
    (compiled : Except (List Diagnostic) (Program × List Diagnostic)) : Sound (e.launch source compiled) := by
  have torn := sound.teardown free
  have cancelled : ∀ {order r}, e.teardown.run? order = some r → r.cancelled = true :=
    fun found => (sound.teardown_runs free found).1
  obtain ⟨more, log, own, rejected | begun⟩ := launch_cases e source compiled
  all_goals rw [← teardown_length e] at own; rw [← teardown_log e] at log
  · obtain ⟨errors, told, runs, -, status⟩ := rejected
    rw [← teardown_length e] at told
    have account : Account .closed (noticesOf e.teardown.runs.length more) := by
      rw [told]
      exact .rejected errors
    exact torn.ordered cancelled runs log own (fun _ => status) account (by simp)
  · obtain ⟨r, warnings, told, runs, current, status, phase, alive, kept⟩ := begun
    rw [← teardown_length e] at told current
    have account : Account .opening (noticesOf e.teardown.runs.length more) := by
      rw [told]
      exact .begun warnings
    refine torn.ordered cancelled runs log own (by simp) account fun run same => ?_
    obtain rfl := Option.some.inj same
    exact ⟨current, alive, kept, by rw [phase]; rfl, status⟩

theorem execute (sound : Sound e) (free : e.busy = false) (source : String) : Sound (e.execute source) := by
  rw [execute_eq_launch]
  exact sound.launch free source _

/-- Every move keeps the invariant. -/
theorem move? {m : Move} (sound : Sound e) (made : e.move? m = some next) : Sound next := by
  cases made_of_move? made with
  | execute source free => exact sound.execute free source
  | stop free => exact sound.stop free
  | device d => exact sound.of_same rfl rfl rfl rfl
  | clock time => exact sound.of_same rfl rfl rfl rfl
  | @answer order r stage reply found asks =>
    obtain ⟨quiet, level⟩ := sound.kept found
    rw [Run.Level, asks] at level
    refine sound.of_touches found (Touches.setRun e order _) rfl ⟨quiet, level⟩ (fun _ => ?_) fun gone => ?_
    · rw [asks]
      cases stage with
      | opening => exact .opens rfl rfl
      | frame => exact .loops rfl rfl
    · have dropped := (sound.dropped found gone).2
      rw [asks] at dropped
      cases stage with
      | opening => exact ⟨rfl, rfl, rfl, rfl⟩
      | frame => cases dropped
  | @poll order r time found wakes =>
    have kept := sound.kept found
    cases gone : r.cancelled with
    | false =>
      obtain ⟨r', status, more, touched, alive, kept', went⟩ := goOn_of_alive gone kept wakes
      exact sound.of_touches found touched (alive.trans gone.symm) kept' (fun _ => went)
        (by simp [gone])
    | true =>
      obtain ⟨halts, dropped⟩ := sound.dropped found gone
      have quiet : r.machine.abandon.sent = #[] := by rw [Machine.abandon_eq, kept.quiet]
      rw [goOn_of_cancelled gone kept halts dropped wakes]
      exact sound.of_touches found ((Touches.setRun e order _).put rfl) rfl ⟨quiet, trivial⟩ (by simp [gone])
        fun _ => ⟨rfl, rfl, rfl, rfl⟩

theorem reaches (sound : Sound e) (reached : e.Reaches next) : Sound next := by
  induction reached with
  | refl => exact sound
  | tail _ made ih =>
    obtain ⟨m, made⟩ := made
    exact ih.move? made

theorem of_reachable (reachable : e.Reachable) : Sound e := by
  obtain ⟨config, answers, reached⟩ := reachable
  exact (Sound.new config answers).reaches reached

end Sound

end Engine

end Sketch
