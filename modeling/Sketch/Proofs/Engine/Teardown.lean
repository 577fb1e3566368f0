import Sketch.Proofs.Engine.Invariant

/-!
Runs that were torn down. Whenever their pauses end, they keep the data that they had, show nothing, and leave the
status and all other runs alone.
-/

namespace Sketch

/-- The data of a sketch: its globals, and its world with all lists and maps. -/
def Machine.data (m : Machine) : Dict Value × World := (m.globals, m.world)

/-- The order whose run a move is about, for moves that are about one. -/
def Move.order? : Move → Option Nat
  | .answer order _ | .poll order => some order
  | .execute _ | .stop | .device _ | .clock _ => none

/-- Whether a move tears down what runs. -/
def Move.tearsDown : Move → Bool
  | .execute _ | .stop => true
  | .device _ | .answer .. | .clock _ | .poll _ => false

namespace Engine

/-- All that a display has received. -/
def shown (e : Engine) : List HostEvent := e.log.flatMap Output.events

variable {e next later : Engine} {order : Nat} {r : Run}

/-- The run of an order stands torn down with the data `data`. -/
def StandsTorn (e : Engine) (order : Nat) (data : Dict Value × World) : Prop :=
  ∃ r, e.run? order = some r ∧ r.cancelled = true ∧ r.machine.data = data

/-- All that comes out on account of an order is that it completes. -/
def Silent (e : Engine) (order : Nat) (later : Engine) : Prop :=
  ∃ more, later.log = e.log ++ more ∧
    ∀ o ∈ more, o.order = order → ∃ outcome, o = .completed order outcome

namespace Silent

theorem of_log_eq (log : next.log = e.log) : Silent e order next := ⟨[], by simp [log], by simp⟩

theorem trans (first : Silent e order next) (second : Silent next order later) : Silent e order later := by
  obtain ⟨more, log, silent⟩ := first
  obtain ⟨more', log', silent'⟩ := second
  refine ⟨more ++ more', by rw [log', log, List.append_assoc], fun o member => ?_⟩
  rcases List.mem_append.mp member with old | new
  · exact silent o old
  · exact silent' o new

theorem events_eq_nil (silent : Silent e order later) :
    ∃ more, later.log = e.log ++ more ∧ ∀ o ∈ more, o.order = order → o.events = [] := by
  obtain ⟨more, log, completes⟩ := silent
  refine ⟨more, log, fun o member own => ?_⟩
  obtain ⟨outcome, rfl⟩ := completes o member own
  rfl

theorem of_foreign {more : List Output} (log : next.log = e.log ++ more)
    (foreign : ∀ o ∈ more, o.order ≠ order) : Silent e order next :=
  ⟨more, log, fun o member own => absurd own (foreign o member)⟩

end Silent

/-- Whoever tears down a run leaves its data alone. -/
theorem Sound.torn_of_teardown (sound : Sound e) (free : e.busy = false)
    (found : e.run? order = some r) (stands : next.run? order = e.teardown.run? order) :
    StandsTorn next order r.machine.data := by
  obtain ⟨torn, found', gone, machine, -⟩ := sound.teardown_run free found
  exact ⟨torn, stands.trans found', gone, by rw [machine]⟩

variable {m : Move} {k : Nat} {run : Run}

/-- A move that tears down leaves every run that there was torn down. -/
theorem Sound.torn_of_tearsDown (sound : Sound e) (tears : m.tearsDown)
    (made : e.move? m = some next) (found : e.run? order = some r) : StandsTorn next order r.machine.data := by
  cases made_of_move? made with
  | execute source free =>
    exact sound.torn_of_teardown free found (execute_run? e source (lt_of_run? found))
  | stop free => exact sound.torn_of_teardown free found (stop_run? e order)
  | device | answer | clock | poll => cases tears

/-- All that a stop puts out is one notice, on account of the latest order. -/
theorem stop_log (e : Engine) :
    e.stop.log = e.log ++ if e.status = .idle then [] else [.notice (e.runs.length - 1) .stopped] := by
  rw [stop]
  split
  · rw [teardown_log, List.append_nil]
  · rw [log_put, teardown_log]

theorem execute_silent (e : Engine) (source : String) (inside : order < e.runs.length) :
    Silent e order (e.execute source) := by
  obtain ⟨more, log, own, -⟩ := execute_cases e source
  refine .of_foreign log fun o member => ?_
  rw [own o member]
  exact (Nat.ne_of_lt inside).symm

/-- A stop reports on no run that was torn down before. -/
theorem Sound.stop_silent (sound : Sound e) (found : e.run? order = some r)
    (gone : r.cancelled = true) : Silent e order e.stop := by
  have log := stop_log e
  by_cases idle : e.status = .idle
  · rw [if_pos idle, List.append_nil] at log
    exact .of_log_eq log
  · rw [if_neg idle] at log
    obtain ⟨latest, run, -, found', alive, isLatest, -⟩ := sound.of_status idle
    refine .of_foreign log fun o member same => ?_
    rw [List.mem_singleton.mp member, Output.order] at same
    have here : latest = order := by omega
    subst here
    obtain rfl := Option.some.inj (found.symm.trans found')
    rw [alive] at gone
    cases gone

/-- A change to another run, or one that does not matter, leaves a torn run as it stands. -/
theorem rests_of_touches {run' : Run} {status : Status} {more : List Output}
    (present : e.run? k = some run) (touched : Touches e k run' status more next)
    (found : e.run? order = some r) (gone : r.cancelled = true)
    (own : k = order → run'.cancelled = true ∧ run'.machine.data = r.machine.data ∧
      ∀ o ∈ more, ∃ outcome, o = .completed order outcome) :
    StandsTorn next order r.machine.data ∧ Silent e order next := by
  have others := run?_eq_of_set (lt_of_run? present) touched.runs order
  by_cases here : order = k
  · obtain ⟨gone', data, silent⟩ := own here.symm
    rw [if_pos here] at others
    exact ⟨⟨run', others, gone', data⟩, more, touched.log, fun o member _ => silent o member⟩
  · rw [if_neg here] at others
    refine ⟨⟨r, others.trans found, gone, rfl⟩, .of_foreign touched.log fun o member => ?_⟩
    rw [touched.own o member]
    exact Ne.symm here

/-- Going on with another run does not touch one that was torn down before. -/
theorem Sound.rests_of_poll (sound : Sound e) {time : Nat}
    (present : e.run? k = some run) (wakes : run.wake? = some time)
    (found : e.run? order = some r) (gone : r.cancelled = true) :
    StandsTorn (e.goOn k run) order r.machine.data ∧ Silent e order (e.goOn k run) := by
  have kept := sound.kept present
  have same (here : k = order) : run = r := by
    subst here
    exact Option.some.inj (present.symm.trans found)
  cases cancelled : run.cancelled with
  | false =>
    obtain ⟨run', status, more, touched, -⟩ := goOn_of_alive cancelled kept wakes
    refine rests_of_touches present touched found gone fun here => ?_
    rw [same here, gone] at cancelled
    cases cancelled
  | true =>
    obtain ⟨halts, dropped⟩ := sound.dropped present cancelled
    rw [goOn_of_cancelled cancelled kept halts dropped wakes]
    refine rests_of_touches present ((Touches.setRun e k _).put rfl) found gone fun here => ?_
    rw [same here, here, Machine.abandon_eq]
    exact ⟨gone, rfl, by simp⟩

/-- No move disturbs a run that was torn down before. -/
theorem Sound.rests_of_move? (sound : Sound e) (made : e.move? m = some next)
    (found : e.run? order = some r) (gone : r.cancelled = true) :
    StandsTorn next order r.machine.data ∧ Silent e order next := by
  cases made_of_move? made with
  | execute source free =>
    have inside := lt_of_run? found
    exact ⟨sound.torn_of_teardown free found (execute_run? e source inside),
      execute_silent e source inside⟩
  | stop free =>
    exact ⟨sound.torn_of_teardown free found (stop_run? e order), sound.stop_silent found gone⟩
  | device => exact ⟨⟨r, found, gone, rfl⟩, .of_log_eq rfl⟩
  | clock => exact ⟨⟨r, found, gone, rfl⟩, .of_log_eq rfl⟩
  | @answer k run stage reply present asks =>
    refine rests_of_touches present (Touches.setRun e k _) found gone fun here => ?_
    subst here
    obtain rfl := Option.some.inj (present.symm.trans found)
    exact ⟨gone, rfl, by simp⟩
  | poll present wakes => exact sound.rests_of_poll present wakes found gone

/-- However long an engine is used, a run that was torn down stays as it was. -/
theorem Sound.rests_of_reaches {data : Dict Value × World} (sound : Sound e)
    (torn : StandsTorn e order data) (reached : e.Reaches later) :
    StandsTorn later order data ∧ Silent e order later := by
  induction reached with
  | refl => exact ⟨torn, .of_log_eq rfl⟩
  | tail reached made ih =>
    obtain ⟨m, made⟩ := made
    obtain ⟨⟨r, found, gone, same⟩, silent⟩ := ih
    obtain ⟨stands, silent'⟩ := (sound.reaches reached).rests_of_move? made found gone
    exact ⟨same ▸ stands, silent.trans silent'⟩

/-- A torn run has one thing left to do, which is to end. That reaches nobody else. -/
theorem Sound.aside_of_move? (sound : Sound e) (about : m.order? = some order)
    (made : e.move? m = some next) (found : e.run? order = some r) (gone : r.cancelled = true) :
    next.status = e.status ∧ next.shown = e.shown ∧
      ∀ other, other ≠ order → next.run? other = e.run? other := by
  have inside := lt_of_run? found
  have others {run : Run} {status : Status} {more : List Output}
      (touched : Touches e order run status more next) (other : Nat) (different : other ≠ order) :
      next.run? other = e.run? other := by
    rw [run?_eq_of_set inside touched.runs, if_neg different]
  cases made_of_move? made with
  | execute | stop | device | clock => cases about
  | answer =>
    obtain rfl := Option.some.inj about
    exact ⟨rfl, rfl, others (Touches.setRun e _ _)⟩
  | @poll k run time present wakes =>
    obtain rfl := Option.some.inj about
    obtain rfl := Option.some.inj (present.symm.trans found)
    obtain ⟨halts, dropped⟩ := sound.dropped found gone
    have goes : e.goOn k run = _ := goOn_of_cancelled gone (sound.kept found) halts dropped wakes
    rw [goes] at others ⊢
    exact ⟨rfl, by simp [shown, Output.events], others ((Touches.setRun e k _).put rfl)⟩

/-- A torn-down run is inert. Of all that follows, whatever moves are made in whatever order, nothing on
    its account reaches the display; its globals and its world stay as they were; and where the run itself
    goes on, the status and all other runs stay as they are. The one thing that comes out on its account is
    the notice of the stop that tears it down. -/
theorem torn_down_run_is_inert {e torn later : Engine} {m : Move} {order : Nat} {r : Run}
    (reachable : e.Reachable) (found : e.run? order = some r) (tears : m.tearsDown)
    (made : e.move? m = some torn) (reached : torn.Reaches later) :
    (∃ told, torn.log = e.log ++ told ∧ ∀ o ∈ told, o.order = order → o = .notice order .stopped) ∧
      (∃ more, later.log = torn.log ++ more ∧ ∀ o ∈ more, o.order = order → o.events = []) ∧
      StandsTorn later order r.machine.data ∧
      ∀ m' next, m'.order? = some order → later.move? m' = some next →
        next.status = later.status ∧ next.shown = later.shown ∧
          ∀ other, other ≠ order → next.run? other = later.run? other := by
  have sound := Sound.of_reachable reachable
  have tornDown := sound.torn_of_tearsDown tears made found
  have soundTorn := sound.move? made
  obtain ⟨stands, silent⟩ := soundTorn.rests_of_reaches tornDown reached
  refine ⟨?_, silent.events_eq_nil, stands, fun m' next about made' => ?_⟩
  · cases made_of_move? made with
    | execute source free =>
        obtain ⟨more, log, own, -⟩ := execute_cases e source
        refine ⟨more, log, fun o member same => ?_⟩
        rw [own o member] at same
        exact absurd same (Nat.ne_of_gt (lt_of_run? found))
    | stop free =>
        refine ⟨_, stop_log e, fun o member same => ?_⟩
        split at member
        · cases member
        · rw [List.mem_singleton.mp member] at same ⊢
          rw [← same, Output.order]
    | device | answer | clock | poll => cases tears
  · obtain ⟨r', found', gone, -⟩ := stands
    exact (soundTorn.reaches reached).aside_of_move? about made' found' gone

/-- A sketch asks two calls deep in `setup`, another one takes its place and asks as well, and then an
    answer comes. -/
theorem asking_run_is_inert_once_replaced :
    ∃ (e torn : Engine) (r : Run), e.Reachable ∧ e.run? 0 = some r ∧
      (r.machine.frames.length, r.phase) = (2, .waiting .opening (.reply none)) ∧
      e.move? (.execute "input()") = some torn ∧
      (∃ more, (torn.handle (.reply (some "late"))).log = torn.log ++ more ∧
        ∀ o ∈ more, o.order = 0 → o.events = []) ∧
      StandsTorn (torn.handle (.reply (some "late"))) 0 r.machine.data := by
  let source :=
    "x = \"kept\"; function setup() \x7b ask() \x7d function ask() \x7b x = input(x) \x7d"
  let e := (Engine.new default .live).handle (.execute source)
  have reachable : e.Reachable := ⟨default, .live, reaches_handle _ _⟩
  have paused : (e.run? 0).map (fun r => (r.machine.frames.length, r.phase)) =
      some (2, .waiting .opening (.reply none)) := by
    decide +kernel
  have replaced : (e.move? (.execute "input()")).isSome := by
    decide +kernel
  obtain ⟨r, found, asks⟩ := Option.map_eq_some_iff.mp paused
  obtain ⟨torn, made⟩ := Option.isSome_iff_exists.mp replaced
  obtain ⟨-, silent, stands, -⟩ :=
    torn_down_run_is_inert reachable found rfl made (reaches_handle torn (.reply (some "late")))
  exact ⟨e, torn, r, reachable, found, asks, made, silent, stands⟩

end Engine

end Sketch
