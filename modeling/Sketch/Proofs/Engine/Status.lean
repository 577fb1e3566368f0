import Sketch.Proofs.Engine.Teardown

/-!
What the status and the notices of an engine say about its runs. A run that crashed is the one thing they do not know
about: the engine goes on to show the status of the moment before.
-/

namespace Sketch

namespace Run

/-- Whether a run is neither cancelled nor over. -/
def isLive (r : Run) : Bool := !r.cancelled && (r.phase.isOpening || r.phase.isLooping)

/-- Whether a run crashed and was not cancelled since. -/
def isWreck (r : Run) : Bool := !r.cancelled && r.phase = .crashed

end Run

namespace Engine

variable {e next later : Engine} {order : Nat} {r : Run}

section Accounts

variable {chapter : Chapter} {told : List Notice}

theorem Account.begins (account : Account chapter told) : ∃ rest, told = .running :: rest ∧ .running ∉ rest := by
  induction account with
  | begun warnings => exact ⟨[.warned warnings], rfl, by simp⟩
  | rejected errors => exact ⟨[.rejected errors], rfl, by simp⟩
  | started _ ih | finished _ ih
  | failed _ _ _ _ ih | stopped _ _ ih =>
    obtain ⟨rest, rfl, once⟩ := ih
    exact ⟨rest ++ [_], rfl, by simpa using once⟩

/-- An order is over with one terminal notice, and has none before. -/
theorem Account.countP_isTerminal (account : Account chapter told) :
    told.countP Notice.isTerminal = if chapter = .closed then 1 else 0 := by
  induction account with
  | begun | rejected => rfl
  | started _ ih => simpa [Notice.isTerminal] using ih
  | finished _ ih => simpa [Notice.isTerminal] using ih
  | failed _ goes _ _ ih | stopped _ goes ih =>
    rw [if_neg goes] at ih
    simp [Notice.isTerminal, ih]

theorem Account.no_terminal (account : Account chapter told) (goes : chapter ≠ .closed) :
    ∀ n ∈ told, n.isTerminal = false := by
  have none_terminal := account.countP_isTerminal
  rw [if_neg goes, List.countP_eq_zero] at none_terminal
  intro n member
  simpa using none_terminal n member

theorem Account.not_started (account : Account .opening told) : .started ∉ told := by
  cases account with
  | begun => simp

theorem Account.not_started_and_finished (account : Account chapter told) : ¬(.started ∈ told ∧ .finished ∈ told) := by
  have unfinished {chapter : Chapter} {told : List Notice} (account : Account chapter told)
      (goes : chapter ≠ .closed) : .finished ∉ told := fun member => by
    have terminal := account.no_terminal goes _ member
    cases terminal
  rintro ⟨started, finished⟩
  cases account with
  | begun | rejected => simp at started
  | started before => exact unfinished (.started before) (by simp) finished
  | finished before =>
    have absent := before.not_started
    simp [absent] at started
  | failed before goes =>
    have absent := unfinished before goes
    simp [absent] at finished
  | stopped before goes =>
    have absent := unfinished before goes
    simp [absent] at finished

end Accounts

/-- The status tells whether there is a live run and which part of it is under way. -/
structure ShowsLiveRun (e : Engine) : Prop where
  executing : e.status = .executing ↔
    ∃ order r, e.run? order = some r ∧ r.isLive ∧ r.phase.isOpening
  looping : e.status = .looping ↔
    ∃ order r, e.run? order = some r ∧ r.isLive ∧ r.phase.isLooping
  idle : e.status = .idle ↔ ∀ order r, e.run? order = some r → r.isLive = false

/-- There is a run that crashed and was not cancelled since. -/
def Wrecked (e : Engine) : Prop := ∃ order r, e.run? order = some r ∧ r.isWreck

theorem alive_of_isLive (live : r.isLive) : r.cancelled = false := by
  rw [Run.isLive, Bool.and_eq_true, Bool.not_eq_true'] at live
  exact live.1

theorem alive_of_isWreck (wreck : r.isWreck) : r.cancelled = false ∧ r.phase = .crashed := by
  simpa [Run.isWreck] using wreck

theorem isLive_of_opening (alive : r.cancelled = false) (opening : r.phase.isOpening) : r.isLive := by
  simp [Run.isLive, alive, opening]

theorem isLive_of_looping (alive : r.cancelled = false) (looping : r.phase.isLooping) : r.isLive := by
  simp [Run.isLive, alive, looping]

theorem Sound.status_of_alive (sound : Sound e) (found : e.run? order = some r)
    (alive : r.cancelled = false) :
    ∃ chapter, Account chapter (e.notices order) ∧ InChapter r.phase chapter ∧
      e.status = chapter.status := by
  obtain ⟨chapter, account, fits⟩ := sound.account (lt_of_run? found)
  exact ⟨chapter, account, fits r found alive⟩

theorem Sound.eq_of_alive (sound : Sound e) {order' : Nat} {r' : Run} (found : e.run? order = some r)
    (alive : r.cancelled = false) (found' : e.run? order' = some r') (alive' : r'.cancelled = false) :
    order = order' := by
  have latest := (sound.latest found alive).2
  have latest' := (sound.latest found' alive').2
  omega

theorem Sound.status_ne_idle (sound : Sound e) (found : e.run? order = some r)
    (alive : r.cancelled = false) (unfinished : r.isLive ∨ r.isWreck) : e.status ≠ .idle := by
  obtain ⟨chapter, -, fits, shows⟩ := sound.status_of_alive found alive
  have goes : chapter ≠ .closed := by
    rcases unfinished with live | wreck
    · rw [Run.isLive, Bool.and_eq_true, Bool.or_eq_true] at live
      rcases live.2 with opening | looping
      · rw [(inChapter_iff_of_opening opening).mp fits]
        simp
      · rw [(inChapter_iff_of_looping looping).mp fits]
        simp
    · rw [(alive_of_isWreck wreck).2] at fits
      exact fits
  rw [shows]
  cases chapter with
  | opening | looping => simp [Chapter.status]
  | closed => exact absurd rfl goes

theorem Sound.executing_of_opening (sound : Sound e) (found : e.run? order = some r)
    (alive : r.cancelled = false) (opening : r.phase.isOpening) : e.status = .executing := by
  obtain ⟨chapter, -, fits, shows⟩ := sound.status_of_alive found alive
  rw [(inChapter_iff_of_opening opening).mp fits] at shows
  exact shows

theorem Sound.looping_of_looping (sound : Sound e) (found : e.run? order = some r)
    (alive : r.cancelled = false) (looping : r.phase.isLooping) : e.status = .looping := by
  obtain ⟨chapter, -, fits, shows⟩ := sound.status_of_alive found alive
  rw [(inChapter_iff_of_looping looping).mp fits] at shows
  exact shows

/-- A phase that is neither the end nor a crash tells its chapter. -/
theorem stage_of_inChapter {phase : Phase} {chapter : Chapter} (fits : InChapter phase chapter)
    (goes : chapter ≠ .closed) (sane : phase ≠ .crashed) :
    chapter = .opening ∧ phase.isOpening ∨ chapter = .looping ∧ phase.isLooping := by
  match phase with
  | .waiting .opening _ | .running .opening => exact .inl ⟨fits, rfl⟩
  | .waiting (.frame ..) _ | .running (.frame ..) => exact .inr ⟨fits, rfl⟩
  | .scheduled _ | .resting .. => exact .inr ⟨fits, rfl⟩
  | .crashed => exact absurd rfl sane
  | .ended => exact absurd fits goes

/-- Unless a run has crashed, a status that is not idle shows a live run. -/
theorem Sound.live_of_status (sound : Sound e) (sane : ¬e.Wrecked) (active : e.status ≠ .idle) :
    ∃ order r, e.run? order = some r ∧ r.isLive ∧
      (e.status = .executing ∧ r.phase.isOpening ∨ e.status = .looping ∧ r.phase.isLooping) := by
  obtain ⟨order, r, chapter, found, alive, -, -, fits, goes, shows⟩ := sound.of_status active
  have uncrashed : r.phase ≠ .crashed := fun crashed =>
    sane ⟨order, r, found, by simp [Run.isWreck, alive, crashed]⟩
  refine ⟨order, r, found, ?_⟩
  rcases stage_of_inChapter fits goes uncrashed with ⟨rfl, opening⟩ | ⟨rfl, looping⟩
  · exact ⟨isLive_of_opening alive opening, .inl ⟨shows, opening⟩⟩
  · exact ⟨isLive_of_looping alive looping, .inr ⟨shows, looping⟩⟩

/-- Without a crash the status shows the live run. -/
theorem Sound.showsLiveRun_of_not_wrecked (sound : Sound e) (sane : ¬e.Wrecked) : e.ShowsLiveRun := by
  constructor
  · constructor
    · intro executing
      obtain ⟨order, r, found, live, ⟨-, opening⟩ | ⟨looping, -⟩⟩ :=
        sound.live_of_status sane (by simp [executing])
      · exact ⟨order, r, found, live, opening⟩
      · rw [executing] at looping
        cases looping
    · rintro ⟨order, r, found, live, opening⟩
      exact sound.executing_of_opening found (alive_of_isLive live) opening
  · constructor
    · intro isLooping
      obtain ⟨order, r, found, live, ⟨executing, -⟩ | ⟨-, looping⟩⟩ :=
        sound.live_of_status sane (by simp [isLooping])
      · rw [isLooping] at executing
        cases executing
      · exact ⟨order, r, found, live, looping⟩
    · rintro ⟨order, r, found, live, looping⟩
      exact sound.looping_of_looping found (alive_of_isLive live) looping
  · constructor
    · intro idle order r found
      cases live : r.isLive with
      | false => rfl
      | true =>
        have active := sound.status_ne_idle found (alive_of_isLive live) (.inl live)
        exact absurd idle active
    · intro noneLive
      by_contra active
      obtain ⟨order, r, found, live, -⟩ := sound.live_of_status sane active
      rw [noneLive order r found] at live
      cases live

/-- The status shows the live run exactly as long as no run has crashed. -/
theorem Sound.showsLiveRun_iff (sound : Sound e) : e.ShowsLiveRun ↔ ¬e.Wrecked := by
  refine ⟨fun shows wrecked => ?_, sound.showsLiveRun_of_not_wrecked⟩
  obtain ⟨order, r, found, wreck⟩ := wrecked
  obtain ⟨alive, crashed⟩ := alive_of_isWreck wreck
  refine sound.status_ne_idle found alive (.inr wreck) (shows.idle.mpr fun order' r' found' => ?_)
  cases live : r'.isLive with
  | false => rfl
  | true =>
    have same := sound.eq_of_alive found alive found' (alive_of_isLive live)
    subst same
    obtain rfl := Option.some.inj (found.symm.trans found')
    simp [Run.isLive, crashed, Phase.isOpening, Phase.isLooping] at live

/-- What a run that goes on can say about itself. -/
theorem Went.notices {before after : Phase} {status status' : Status} {more : List Notice}
    (went : Went before status after status' more) :
    .running ∉ more ∧ .stopped ∉ more ∧ (.started ∈ more → status' = .looping ∧ after.isLooping) := by
  cases went with
  | starts _ becomes => simp [becomes]
  | opens | finishes | loops | fails | crashes => simp

/-- What one move tells on account of an order. -/
structure Tells (e : Engine) (m : Move) (next : Engine) (order : Nat) (more : List Notice) : Prop where
  told : next.notices order = e.notices order ++ more
  running : .running ∈ more ↔ ∃ source, m = .execute source ∧ order = e.runs.length
  started : .started ∈ more →
    next.status = .looping ∧ ∃ r, next.run? order = some r ∧ r.isLive ∧ r.phase.isLooping
  stopped : .stopped ∈ more → m = .stop

/-- A move that is no order and tells nothing. -/
theorem Tells.of_nil {m : Move} (told : next.notices order = e.notices order)
    (noOrder : ∀ source, m ≠ .execute source) : Tells e m next order [] where
  told := by rw [told, List.append_nil]
  running := by
    refine ⟨fun member => (List.not_mem_nil member).elim, ?_⟩
    rintro ⟨source, given, -⟩
    exact absurd given (noOrder source)
  started := by simp
  stopped := by simp

theorem execute_tells (e : Engine) (source : String) (order : Nat) :
    ∃ more, Tells e (.execute source) (e.execute source) order more := by
  obtain ⟨more, log, own, cases⟩ := execute_cases e source
  by_cases here : order = e.runs.length
  · subst here
    rcases cases with ⟨errors, told, -⟩ | ⟨r, warnings, told, -⟩
    all_goals
      refine ⟨_, told ▸ notices_append log _, ?_, ?_, ?_⟩
      all_goals simp
  · have told := notices_append log order
    rw [noticesOf_eq_nil_of_own own here] at told
    refine ⟨[], told, ?_, ?_, ?_⟩
    all_goals simp [here]

/-- A stop tells of the run that it stops, if there is one. -/
theorem stop_tells (e : Engine) (order : Nat) : ∃ more, Tells e .stop e.stop order more := by
  have onlyStopped : ∀ n ∈ noticesOf order (if e.status = .idle then []
      else [Output.notice (e.runs.length - 1) .stopped]), n = .stopped := by
    intro n member
    obtain ⟨o, among, tells⟩ := List.mem_filterMap.mp member
    split at among
    · cases among
    · rw [List.mem_singleton.mp among] at tells
      simp only [Option.ite_none_right_eq_some, Option.some.injEq] at tells
      exact tells.2.symm
  refine ⟨_, notices_append (stop_log e) order, ?_, fun member => ?_, fun _ => rfl⟩
  · refine ⟨fun member => ?_, fun ⟨_, given, _⟩ => by cases given⟩
    have impossible := onlyStopped _ member
    cases impossible
  · have impossible := onlyStopped _ member
    cases impossible

/-- A change to one run tells nothing on account of the others. -/
theorem tells_of_touches {k : Nat} {run run' : Run} {status : Status} {more : List Output} {m : Move}
    (present : e.run? k = some run) (touched : Touches e k run' status more next)
    (noOrder : ∀ source, m ≠ .execute source) (order : Nat)
    (own : .running ∉ noticesOf k more ∧ .stopped ∉ noticesOf k more ∧
      (.started ∈ noticesOf k more → status = .looping ∧ run'.isLive ∧ run'.phase.isLooping)) :
    ∃ told, Tells e m next order told := by
  by_cases here : order = k
  · subst here
    obtain ⟨notRunning, notStopped, starts⟩ := own
    refine ⟨_, notices_append touched.log order, ?_, fun member => ?_, fun member => ?_⟩
    · refine ⟨fun member => absurd member notRunning, ?_⟩
      rintro ⟨source, given, -⟩
      exact absurd given (noOrder source)
    · obtain ⟨looping, live, isLooping⟩ := starts member
      refine ⟨touched.status.trans looping, run', ?_, live, isLooping⟩
      rw [run?_eq_of_set (lt_of_run? present) touched.runs, if_pos rfl]
    · exact absurd member notStopped
  · have told := notices_append touched.log order
    rw [noticesOf_eq_nil_of_own touched.own here, List.append_nil] at told
    exact ⟨[], .of_nil told noOrder⟩

/-- Every move tells what it may tell. -/
theorem Sound.tells_of_move? (sound : Sound e) {m : Move} (made : e.move? m = some next)
    (order : Nat) : ∃ more, Tells e m next order more := by
  cases made_of_move? made with
  | execute source free => exact execute_tells e source order
  | stop free => exact stop_tells e order
  | device | clock => exact ⟨[], .of_nil rfl (by simp)⟩
  | answer reply found asks => exact ⟨[], .of_nil rfl (by simp)⟩
  | @poll k run time present wakes =>
    have kept := sound.kept present
    cases cancelled : run.cancelled with
    | false =>
      obtain ⟨run', status, more, touched, alive, -, went⟩ := goOn_of_alive cancelled kept wakes
      obtain ⟨notRunning, notStopped, starts⟩ := went.notices
      refine tells_of_touches present touched (by simp) order ⟨notRunning, notStopped, ?_⟩
      intro member
      obtain ⟨looping, isLooping⟩ := starts member
      exact ⟨looping, isLive_of_looping alive isLooping, isLooping⟩
    | true =>
      obtain ⟨halts, dropped⟩ := sound.dropped present cancelled
      rw [goOn_of_cancelled cancelled kept halts dropped wakes]
      have dropped := Touches.setRun e k { run with machine := run.machine.abandon, phase := .ended }
      have touched := dropped.put (o := .completed k .ok) rfl
      exact tells_of_touches present touched (by simp) order (by simp)

/-- A stop says so of one run that was not over, if there was one. -/
theorem Sound.stopped_iff (sound : Sound e) :
    (∃ told, e.stop.log = e.log ++ told ∧ ∃ order, .notice order .stopped ∈ told) ↔
      ∃ order r, e.run? order = some r ∧ (r.isLive ∨ r.isWreck) := by
  have stopLog := stop_log e
  constructor
  · rintro ⟨told, log, order, member⟩
    have active : e.status ≠ .idle := by
      intro idle
      rw [if_pos idle] at stopLog
      rw [List.append_cancel_left (log.symm.trans stopLog)] at member
      cases member
    by_cases wrecked : e.Wrecked
    · obtain ⟨order, r, found, wreck⟩ := wrecked
      exact ⟨order, r, found, .inr wreck⟩
    · obtain ⟨order, r, found, live, -⟩ := sound.live_of_status wrecked active
      exact ⟨order, r, found, .inl live⟩
  · rintro ⟨order, r, found, unfinished⟩
    have alive : r.cancelled = false := by
      rcases unfinished with live | wreck
      · exact alive_of_isLive live
      · exact (alive_of_isWreck wreck).1
    rw [if_neg (sound.status_ne_idle found alive unfinished)] at stopLog
    exact ⟨_, stopLog, e.runs.length - 1, List.mem_singleton_self _⟩

/-- A run in whose place another one is started is never said to be over. -/
theorem Sound.replaced (sound : Sound e) (found : e.run? order = some r) (live : r.isLive)
    {source : String} (made : e.move? (.execute source) = some next) (reached : next.Reaches later) :
    ∀ n ∈ later.notices order, n.isTerminal = false := by
  have inside := lt_of_run? found
  have alive := alive_of_isLive live
  have silent : Silent e order later := by
    have torn := sound.torn_of_tearsDown rfl made found
    have before : Silent e order next := by
      cases made_of_move? made with
      | execute _ free => exact execute_silent e source inside
    exact before.trans ((sound.move? made).rests_of_reaches torn reached).2
  obtain ⟨more, log, completes⟩ := silent
  have unsaid : noticesOf order more = [] := by
    rw [noticesOf, List.filterMap_eq_nil_iff]
    intro o member
    cases o with
    | host | completed => rfl
    | notice k n =>
      rw [ite_eq_right_iff]
      intro own
      obtain ⟨outcome, impossible⟩ := completes _ member own
      cases impossible
  obtain ⟨chapter, account, fits, shows⟩ := sound.status_of_alive found alive
  have goes : chapter ≠ .closed := by
    rintro rfl
    exact sound.status_ne_idle found alive (.inl live) shows
  rw [notices_append log, unsaid, List.append_nil]
  exact account.no_terminal goes

/-- The notices on an order from its first to its last. -/
theorem Sound.notices_eq (sound : Sound e) (order : Nat) :
    if order < e.runs.length then
      ∃ rest, e.notices order = .running :: rest ∧ .running ∉ rest ∧
        rest.countP Notice.isTerminal ≤ 1 ∧ ¬(.started ∈ rest ∧ .finished ∈ rest)
    else e.notices order = [] := by
  by_cases inside : order < e.runs.length
  · rw [if_pos inside]
    obtain ⟨chapter, account, -⟩ := sound.account inside
    obtain ⟨rest, told, once⟩ := account.begins
    have terminals := account.countP_isTerminal
    have exclusive := account.not_started_and_finished
    rw [told] at terminals exclusive
    refine ⟨rest, told, once, ?_, ?_⟩
    · rw [List.countP_cons_of_neg (by simp [Notice.isTerminal])] at terminals
      rw [terminals]
      split <;> simp
    · simpa using exclusive
  · rw [if_neg inside]
    refine noticesOf_eq_nil fun o member same => inside ?_
    rw [← same]
    exact sound.logged o member

/-- The life of an engine in use. At most one run is live. The status shows whether there is one and where
    it stands, exactly as long as no run has crashed. On account of each order comes one notice that it
    runs, then at most one with which it is over; frames start on account of a run that loops from then on,
    and never on account of one that finishes. A run that is replaced is never said to be over. A stop
    reports if and only if there was a run to stop, be it live or crashed. -/
theorem lifecycle_up_to_crashes {e : Engine} (reachable : e.Reachable) :
    (∀ order order' r r', e.run? order = some r → e.run? order' = some r' → r.isLive → r'.isLive →
      order = order') ∧
    (e.ShowsLiveRun ↔ ¬e.Wrecked) ∧
    (∀ order, if order < e.runs.length then
      ∃ rest, e.notices order = .running :: rest ∧ .running ∉ rest ∧
        rest.countP Notice.isTerminal ≤ 1 ∧ ¬(.started ∈ rest ∧ .finished ∈ rest)
      else e.notices order = []) ∧
    (∀ m next, e.move? m = some next → ∀ order, ∃ more, Tells e m next order more) ∧
    (∀ order r source next later, e.run? order = some r → r.isLive →
      e.move? (.execute source) = some next → next.Reaches later →
      ∀ n ∈ later.notices order, n.isTerminal = false) ∧
    ∀ next, e.move? .stop = some next →
      ((∃ told, next.log = e.log ++ told ∧ ∃ order, .notice order .stopped ∈ told) ↔
        ∃ order r, e.run? order = some r ∧ (r.isLive ∨ r.isWreck)) := by
  have sound := Sound.of_reachable reachable
  refine ⟨?_, sound.showsLiveRun_iff, sound.notices_eq, ?_, ?_, ?_⟩
  · intro order order' r r' found found' live live'
    exact sound.eq_of_alive found (alive_of_isLive live) found' (alive_of_isLive live')
  · intro m next made order
    exact sound.tells_of_move? made order
  · intro order r source next later found live made reached
    exact sound.replaced found live made reached
  · intro next made
    cases made_of_move? made with
    | stop free => exact sound.stopped_iff

/-- In a frame a map becomes part of the key under which something is put into it, which crashes. The engine shows
    that it loops, and there is no live run. -/
theorem status_stays_after_crash :
    ∃ e : Engine, e.Reachable ∧ e.Wrecked ∧ e.status = .looping ∧ ¬e.ShowsLiveRun := by
  let e := (Engine.new default .live).handle (.execute "m = \x7b\x7d\nfunction loop() \x7b m[[m]] = 1 \x7d")
  have reachable : e.Reachable := ⟨default, .live, reaches_handle _ _⟩
  have crashed : (e.run? 0).map Run.isWreck = some true := by
    decide +kernel
  have looping : e.status = .looping := by
    decide +kernel
  obtain ⟨r, found, wreck⟩ := Option.map_eq_some_iff.mp crashed
  have wrecked : e.Wrecked := ⟨0, r, found, wreck⟩
  obtain ⟨-, shows, -⟩ := lifecycle_up_to_crashes reachable
  exact ⟨e, reachable, wrecked, looping, fun shown => shows.mp shown wrecked⟩

end Engine

end Sketch
