import Sketch.Proofs.Engine.Rest
import Sketch.Proofs.Engine.Sequel
import Sketch.Proofs.Machine.Bisimulation

/-!
What comes of a run does not depend on how many steps it is given at a time: an engine comes to rest as if the run
that works came to its next halt at once.
-/

namespace Sketch

theorem Failure.under_after (told : Array HostEvent) (f : Failure) : f.under (.after told) = f :=
  congrArg (fun trace => { f with trace }) (map_of_mem fun _ _ => rfl)

namespace Engine

/-! ### Work in several parts -/

section Parts

variable (e : Engine) (order : Nat) (r : Run) (m : Machine) (stage : Stage)

/-- The run in the middle of its work, after what it sent was handed over. -/
def working : Run := { r with machine := { m with sent := #[] }, phase := .running stage }

theorem hand_hand (events events' : Array HostEvent) :
    (e.hand order events).hand order events' = e.hand order (events ++ events') := by
  rw [hand, hand, hand, Array.map_append, Array.append_assoc]

theorem keep_keep (m' : Machine) (phase : Phase) :
    (e.keep order r m (.running stage)).keep order (working r m stage) m' phase =
      e.keep order r (m'.under (.after m.sent)) phase := by
  rw [Machine.under_after, keep, keep, keep, ← hand_hand, setRun, setRun, setRun]
  simp only [hand, List.set_set]
  rfl

theorem opened_keep (m' : Machine) (ending : Ending) :
    (e.keep order r m (.running stage)).opened order (working r m stage) m' ending =
      e.opened order r (m'.under (.after m.sent)) ending := by
  have cancelled : (working r m stage).cancelled = r.cancelled := rfl
  have function : (working r m stage).frameFunction = r.frameFunction := rfl
  have source : (working r m stage).source = r.source := rfl
  simp only [opened, cancelled, function, source, keep_keep]

theorem ticked_keep (ticker : Ticker) (next : Nat) (m' : Machine) (ending : Ending) :
    (e.keep order r m (.running stage)).ticked order (working r m stage) ticker next m' ending =
      e.ticked order r ticker next (m'.under (.after m.sent)) ending := by
  have devices : (e.keep order r m (.running stage)).devices = e.devices := rfl
  have cancelled : (working r m stage).cancelled = r.cancelled := rfl
  have source : (working r m stage).source = r.source := rfl
  have ended (mouse : Point) :
      (m'.endFrame mouse).under (.after m.sent) = (m'.under (.after m.sent)).endFrame mouse := rfl
  cases ending with
  | well => simp only [ticked, devices, keep_keep, ended]
  | failed f => simp only [ticked, cancelled, source, keep_keep]
  | stopped => simp only [ticked, keep_keep]

theorem closed_keep (stage' : Stage) (m' : Machine) (ending : Ending) :
    (e.keep order r m (.running stage)).closed order (working r m stage) stage' m' ending =
      e.closed order r stage' (m'.under (.after m.sent)) ending := by
  cases stage' with
  | opening => exact opened_keep e order r m stage m' ending
  | frame ticker next => exact ticked_keep e order r m stage ticker next m' ending

theorem await_keep (p : Pause) :
    (e.keep order r m (.running stage)).await p =
      ((e.await p).1, (e.await p).2.keep order r m (.running stage)) := by
  cases p with
  | delay n => rfl
  | prompt text =>
    have answers : (e.keep order r m (.running stage)).answers = e.answers := rfl
    rw [await, await, answers]
    split <;> rfl

/-- A halt after some work that was handed over is the halt of all of it. -/
theorem halted_keep (h : Step) :
    (e.keep order r m (.running stage)).halted order (working r m stage) stage h =
      e.halted order r stage (h.under (.after m.sent)) := by
  have cancelled : (working r m stage).cancelled = r.cancelled := rfl
  cases h with
  | next m' => exact keep_keep e order r m stage m' _
  | finished m' => exact closed_keep e order r m stage stage m' .well
  | failed f m' =>
    rw [Step.under, Failure.under_after]
    exact closed_keep e order r m stage stage m' (.failed f)
  | crashed m' => simp only [halted, Step.under, keep_keep]
  | paused p m' =>
    simp only [halted, Step.under, cancelled, await_keep, keep_keep]
    split
    · rw [← Machine.under_abandon]
      exact closed_keep e order r m stage stage m'.abandon .stopped
    · rfl

end Parts

/-! ### Coming to rest -/

/-- An engine comes to rest at a time, where work goes on to its next halt at once. -/
inductive Settles (target : Nat) : Engine → Engine → Prop
  | rests {e : Engine} (rest : e.tick? target = none) : Settles target e (e.moveOr (.clock target))
  | ticks {e next later : Engine} (free : e.busy = false) (tick : e.tick? target = some next)
      (settles : Settles target next later) : Settles target e later
  | works {e later : Engine} {order : Nat} {r : Run} {stage : Stage} {h : Step} (found : e.run? order = some r)
      (running : r.phase = .running stage) (halts : r.machine.Halts r.script h)
      (settles : Settles target (e.halted order r stage h) later) : Settles target e later

variable {e later : Engine} {order target : Nat} {r : Run} {stage : Stage} {m : Machine} {h : Step}

theorem busy_of_running (found : e.run? order = some r) (running : r.phase = .running stage) : e.busy = true := by
  rw [busy_iff]
  exact ⟨order, r, found, by rw [running]; rfl⟩

/-- Only the latest run is at work. -/
theorem Sound.order_of_running (sound : Sound e)
    (found : e.run? order = some r) (running : r.phase = .running stage) : order + 1 = e.runs.length := by
  cases gone : r.cancelled with
  | false => exact (sound.latest found gone).2
  | true =>
    have dropped := (sound.dropped found gone).1
    rw [running] at dropped
    cases dropped

/-- An engine at work goes on with the run that works. -/
theorem Sound.tick?_of_running (sound : Sound e)
    (found : e.run? order = some r) (running : r.phase = .running stage) (target : Nat) :
    e.tick? target = some (e.halted order r stage (r.machine.run r.script Machine.patience)) := by
  obtain ⟨order', r', next, found', -, last⟩ := sound.next?_of_busy (busy_of_running found running)
  have same : order' = order := Nat.succ.inj (last.trans (sound.order_of_running found running).symm)
  subst same
  cases found.symm.trans found'
  obtain ⟨later, tick⟩ := tick?_isSome next (Nat.zero_le target)
  obtain ⟨order, time, r, next', -, found', -, eq⟩ := sound.tick?_eq_some tick
  cases next.symm.trans next'
  cases found.symm.trans found'
  rw [tick, eq, goOn, running, Nat.max_zero]

theorem run?_keep (found : e.run? order = some r) (m : Machine) (stage : Stage) :
    (e.keep order r m (.running stage)).run? order = some (working r m stage) := by
  have set : (e.keep order r m (.running stage)).run? order = if order = order then some _ else e.run? order :=
    run?_eq_of_set (lt_of_run? found) rfl order
  rw [set, if_pos rfl]
  rfl

/-- What a machine does next is the same after what it sent was handed over. -/
theorem under_after_quiet (m : Machine) : { m with sent := #[] }.under (.after m.sent) = m := by
  rw [Machine.under_after, Array.append_empty]

theorem halts_of_working {s : Script} (halts : { m with sent := #[] }.Halts s h) :
    m.Halts s (h.under (.after m.sent)) := by
  obtain ⟨fuel, rfl, halted⟩ := halts
  refine ⟨fuel, ?_, ?_⟩
  · rw [Machine.under_run, under_after_quiet, Script.under_after]
  · generalize { m with sent := #[] }.run s fuel = h at halted ⊢
    cases h <;> exact halted

/-- The rest of some work is part of it. -/
theorem Settles.of_keep (sound : Sound (e.keep order r m (.running stage))) (found : e.run? order = some r)
    (running : r.phase = .running stage) {fuel : Nat} (ran : r.machine.run r.script fuel = .next m)
    (settles : Settles target (e.keep order r m (.running stage)) later) : Settles target e later := by
  have kept := run?_keep found m stage
  cases settles with
  | rests rest =>
    rw [sound.tick?_of_running kept rfl] at rest
    cases rest
  | ticks free =>
    rw [busy_of_running kept rfl] at free
    cases free
  | works keptAgain runningAgain halts settles =>
    cases Nat.succ.inj ((sound.order_of_running keptAgain runningAgain).trans (sound.order_of_running kept rfl).symm)
    cases kept.symm.trans keptAgain
    cases runningAgain
    rw [halted_keep] at settles
    exact .works found running (.of_run ran (halts_of_working halts)) settles

/-- Work can be done at once up to its next halt. -/
theorem Comes.settles (comes : Comes target e later) (sound : Sound e) : Settles target e later := by
  induction comes with
  | rests rest => exact .rests rest
  | @ticks e next later tick _ ih =>
    have settles := ih (sound.tick? tick)
    cases busy : e.busy with
    | false => exact .ticks busy tick settles
    | true =>
      obtain ⟨order, r, found, isRunning⟩ := (busy_iff e).mp busy
      obtain ⟨stage, running⟩ : ∃ stage, r.phase = .running stage := by
        cases phase : r.phase with
        | running stage => exact ⟨stage, rfl⟩
        | waiting | scheduled | resting | crashed | ended =>
          rw [phase] at isRunning
          cases isRunning
      rw [sound.tick?_of_running found running] at tick
      cases tick
      cases ran : r.machine.run r.script Machine.patience with
      | paused | finished | failed | crashed =>
        rw [ran] at settles
        exact .works found running ⟨Machine.patience, ran, rfl⟩ settles
      | next m =>
        have sound' := sound.tick? (sound.tick?_of_running found running target)
        rw [ran] at settles sound'
        exact Settles.of_keep sound' found running ran settles

/-- A run at work gets to its next halt, however many parts it takes. -/
theorem Sound.halted_of_halts (sound : Sound e) (found : e.run? order = some r) (running : r.phase = .running stage)
    (halts : r.machine.Halts r.script h) : e.Reaches (e.halted order r stage h) ∧
      ∀ target later, Comes target (e.halted order r stage h) later → Comes target e later := by
  obtain ⟨fuel, rfl, isHalted⟩ := halts
  induction fuel using Nat.strongRecOn generalizing e r with
  | ind fuel ih =>
    have tick := sound.tick?_of_running found running
    cases ran : r.machine.run r.script Machine.patience with
    | paused | finished | failed | crashed =>
      have same : r.machine.run r.script Machine.patience = r.machine.run r.script fuel :=
        Machine.Halts.unique ⟨_, rfl, by rw [ran]; rfl⟩ ⟨fuel, rfl, isHalted⟩
      simp only [same] at tick
      exact ⟨reaches_tick? (tick 0), fun target later comes => .ticks (tick target) comes⟩
    | next m =>
      obtain ⟨rest, rfl, same⟩ := Machine.halts_of_run ran isHalted
      have positive : 0 < Machine.patience := by decide
      rw [ran] at tick
      -- The rest of the work is done by the run that is left after the first part.
      have left : (r.machine.run r.script (Machine.patience + rest)) =
          ({ m with sent := #[] }.run r.script rest).under (.after m.sent) := by
        rw [← same, Machine.under_run, under_after_quiet, Script.under_after]
      have stillHalted : ({ m with sent := #[] }.run r.script rest).isNext = false := by
        rw [left] at isHalted
        generalize { m with sent := #[] }.run r.script rest = h at isHalted
        cases h <;> exact isHalted
      obtain ⟨reached, comes⟩ := ih rest (by omega) (sound.tick? (tick 0))
        (run?_keep found m stage) rfl stillHalted
      rw [left, ← halted_keep]
      exact ⟨(reaches_tick? (tick 0)).trans reached, fun target later coming =>
        .ticks (tick target) (comes target later coming)⟩

theorem Settles.comes (settles : Settles target e later) (sound : Sound e) : Comes target e later := by
  induction settles with
  | rests rest => exact .rests rest
  | ticks _ tick _ ih => exact .ticks tick (ih (sound.tick? tick))
  | works found running halts _ ih =>
    obtain ⟨reached, comes⟩ := sound.halted_of_halts found running halts
    exact comes _ _ (ih (sound.reaches reached))

end Engine

end Sketch
