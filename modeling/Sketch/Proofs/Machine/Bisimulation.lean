import Sketch.Proofs.Machine.Relocation
import Sketch.Proofs.Machine.Return

/-!
Machines that cannot be told apart from outside. They may need different numbers of steps, but come to the same halts
with the same globals, in the same world, after they have sent the same.
-/

namespace Sketch

/-- What a machine shows outside. -/
def Machine.outside (m : Machine) : Dict Value × World × Array HostEvent := (m.globals, m.world, m.sent)

/-- Failures for the same reason in the same calls, at any places. -/
def Failure.Alike (f f' : Failure) : Prop :=
  f.cause = f'.cause ∧ f.trace.map (·.function) = f'.trace.map (·.function)

namespace Step

/-- Whether a step leads to another one. -/
def isNext : Step → Bool
  | .next _ => true
  | _ => false

/-- Halts that look the same from outside. Behind a pause related machines go on. -/
inductive Alike (R : Machine → Machine → Prop) : Step → Step → Prop
  | paused {p : Pause} {m m' : Machine} (same : m.outside = m'.outside)
      (goesOn : ∀ told v, R ({ m with sent := told }.resume v) ({ m' with sent := told }.resume v)) :
      Alike R (.paused p m) (.paused p m')
  | finished {m m' : Machine} (same : m.outside = m'.outside) : Alike R (.finished m) (.finished m')
  | failed {f f' : Failure} {m m' : Machine} (alike : f.Alike f') (same : m.outside = m'.outside) :
      Alike R (.failed f m) (.failed f' m')
  | crashed {m m' : Machine} (same : m.outside = m'.outside) : Alike R (.crashed m) (.crashed m')

namespace Alike

variable {R : Machine → Machine → Prop} {h h' : Step}

theorem isNext (alike : Alike R h h') : h.isNext = false ∧ h'.isNext = false := by
  cases alike <;> exact ⟨rfl, rfl⟩

/-- What holds of every machine that goes on can be added to the relation. -/
theorem and_left {P : Machine → Prop} (alike : Alike R h h')
    (goesOn : ∀ p m, h = .paused p m → ∀ told v, P ({ m with sent := told }.resume v)) :
    Alike (fun m m' => R m m' ∧ P m) h h' := by
  cases alike with
  | paused same related => exact .paused same fun told v => ⟨related told v, goesOn _ _ rfl told v⟩
  | finished same => exact .finished same
  | failed alike same => exact .failed alike same
  | crashed same => exact .crashed same

theorem flip (alike : Alike R h h') : Alike (fun m' m => R m m') h' h := by
  cases alike with
  | paused same goesOn => exact .paused same.symm goesOn
  | finished same => exact .finished same.symm
  | failed alike same => exact .failed ⟨alike.1.symm, alike.2.symm⟩ same.symm
  | crashed same => exact .crashed same.symm

end Alike

end Step

namespace Machine

/-! ### Where two runs meet -/

theorem run_of_step {script : Script} {m n : Machine} (stepped : m.step script = .next n) (fuel : Nat) :
    m.run script (fuel + 1) = n.run script fuel := by
  rw [run, stepped]

/-- Two machines run on, each by at least one step, until they are related again or halt alike. -/
inductive Meet (R : Machine → Machine → Prop) (s s' : Script) (m m' : Machine) : Prop
  | related {a b : Nat} {n n' : Machine} (left : m.run s (a + 1) = .next n) (right : m'.run s' (b + 1) = .next n')
      (again : R n n') : Meet R s s' m m'
  | halted (a b : Nat) (alike : (m.run s a).Alike R (m'.run s' b)) : Meet R s s' m m'

namespace Meet

variable {R : Machine → Machine → Prop} {s s' : Script} {m m' n n' : Machine}

theorem left (stepped : m.step s = .next n) (meet : Meet R s s' n m') : Meet R s s' m m' := by
  cases meet with
  | related left right again =>
    rw [← run_of_step stepped] at left
    exact .related left right again
  | halted a b alike =>
    rw [← run_of_step stepped] at alike
    exact .halted (a + 1) b alike

theorem flip (meet : Meet R s s' m m') : Meet (fun m' m => R m m') s' s m' m := by
  cases meet with
  | related left right again => exact .related right left again
  | halted a b alike => exact .halted b a alike.flip

theorem right (stepped : m'.step s' = .next n') (meet : Meet R s s' m n') : Meet R s s' m m' :=
  (meet.flip.left stepped).flip

theorem steps (one : m.step s = .next n) (two : m'.step s' = .next n') (again : R n n') : Meet R s s' m m' :=
  .related (a := 0) (b := 0) (run_of_step one 0) (run_of_step two 0) again

theorem halts (alike : (m.step s).Alike R (m'.step s')) : Meet R s s' m m' := by
  apply Meet.halted 1 1
  rw [run_one, run_one]
  exact alike

/-- Only what a machine does next counts. -/
theorem congr_right (same : m'.step s' = n'.step s') (meet : Meet R s s' m m') : Meet R s s' m n' := by
  have run (b : Nat) : m'.run s' (b + 1) = n'.run s' (b + 1) := by rw [Machine.run, Machine.run, same]
  cases meet with
  | related left right again =>
    rw [run] at right
    exact .related left right again
  | halted a b alike =>
    cases b with
    | zero => cases alike.isNext.2
    | succ b =>
      rw [run] at alike
      exact .halted a (b + 1) alike

end Meet

/-! ### Halts -/

/-- A machine comes to a halt. -/
def Halts (script : Script) (m : Machine) (h : Step) : Prop := ∃ fuel, m.run script fuel = h ∧ h.isNext = false

section Halts

variable {script : Script} {m n : Machine} {h : Step}

/-- A machine that has halted stays where it is. -/
theorem run_of_halted {fuel : Nat} (halted : (m.run script fuel).isNext = false) (more : Nat) :
    m.run script (fuel + more) = m.run script fuel := by
  induction fuel generalizing m with
  | zero => cases halted
  | succ fuel ih =>
    rw [Nat.succ_add, run, run]
    rw [run] at halted
    cases stepped : m.step script with
    | next n =>
      rw [stepped] at halted
      exact ih halted
    | paused | finished | failed | crashed => rfl

/-- A machine that still ran after some steps halts after more of them. -/
theorem halts_of_run {a fuel : Nat} (ran : m.run script a = .next n) (halted : (m.run script fuel).isNext = false) :
    ∃ rest, fuel = a + rest ∧ n.run script rest = m.run script fuel := by
  have later : a ≤ fuel := by
    apply Nat.le_of_not_lt
    intro early
    have stays := run_of_halted halted (a - fuel)
    rw [Nat.add_sub_cancel' (Nat.le_of_lt early), ran] at stays
    rw [← stays] at halted
    cases halted
  obtain ⟨rest, rfl⟩ := Nat.exists_eq_add_of_le later
  exact ⟨rest, rfl, (run_add ran rest).symm⟩

theorem Halts.of_run {fuel : Nat} (ran : m.run script fuel = .next n) (halts : n.Halts script h) :
    m.Halts script h := by
  obtain ⟨rest, rfl, halted⟩ := halts
  exact ⟨fuel + rest, run_add ran rest, halted⟩

theorem Halts.unique {h' : Step} (one : m.Halts script h) (two : m.Halts script h') : h = h' := by
  obtain ⟨a, rfl, halted⟩ := one
  obtain ⟨b, rfl, halted'⟩ := two
  rw [← run_of_halted halted b, Nat.add_comm, run_of_halted halted']

end Halts

end Machine

/-! ### Bisimulations -/

/-- Related machines show the same outside, meet again, and are related when a function is called. -/
structure Bisimulation (s s' : Script) (R : Machine → Machine → Prop) : Prop where
  outside {m m' : Machine} : R m m' → m.outside = m'.outside
  meets {m m' : Machine} : R m m' → Machine.Meet R s s' m m'
  calls {m m' : Machine} (same : m.outside = m'.outside) (idle : m.frames = []) (idle' : m'.frames = [])
    (name : String) : R (m.call name) (m'.call name)

namespace Bisimulation

variable {s s' : Script} {R : Machine → Machine → Prop} {m m' : Machine}

theorem flip (bisimulation : Bisimulation s s' R) : Bisimulation s' s fun m' m => R m m' where
  outside related := (bisimulation.outside related).symm
  meets related := (bisimulation.meets related).flip
  calls same idle idle' := bisimulation.calls same.symm idle' idle

theorem refl (s : Script) : Bisimulation s s Eq where
  outside same := congrArg Machine.outside same
  meets := by
    rintro m - rfl
    have halts {h : Step} (stepped : m.step s = h) (alike : h.Alike Eq h) : Machine.Meet Eq s s m m := by
      apply Machine.Meet.halts
      rw [stepped]
      exact alike
    cases stepped : m.step s with
    | next n => exact .steps stepped stepped rfl
    | paused p n => exact halts stepped (.paused rfl fun _ _ => rfl)
    | finished n => exact halts stepped (.finished rfl)
    | failed f n => exact halts stepped (.failed ⟨rfl, rfl⟩ rfl)
    | crashed n => exact halts stepped (.crashed rfl)
  calls := by
    intro m m' same idle idle' name
    obtain ⟨control, conts, frames, globals, world, sent⟩ := m
    obtain ⟨control', conts', frames', globals', world', sent'⟩ := m'
    cases same
    cases idle.trans idle'.symm
    rfl

/-- Whenever one of two related machines halts, so does the other, alike. -/
theorem halts (bisimulation : Bisimulation s s' R) (related : R m m') {h : Step} (halts : m.Halts s h) :
    ∃ h', m'.Halts s' h' ∧ h.Alike R h' := by
  obtain ⟨fuel, rfl, halted⟩ := halts
  induction fuel using Nat.strongRecOn generalizing m m' with
  | ind fuel ih =>
    cases bisimulation.meets related with
    | halted a b alike =>
      have same : m.run s a = m.run s fuel :=
        Machine.Halts.unique ⟨a, rfl, alike.isNext.1⟩ ⟨fuel, rfl, halted⟩
      rw [same] at alike
      exact ⟨_, ⟨b, rfl, alike.isNext.2⟩, alike⟩
    | related left right again =>
      obtain ⟨rest, rfl, same⟩ := Machine.halts_of_run left halted
      rw [← same] at halted ⊢
      obtain ⟨h', ⟨more, rfl, halted'⟩, alike⟩ := ih rest (by omega) again halted
      exact ⟨_, ⟨_, Machine.run_add right more, halted'⟩, alike⟩

end Bisimulation

/-! ### Other guises -/

section Guises

variable {g : Guise} {R : Machine → Machine → Prop}

theorem Machine.under_outside (silent : g.told = #[]) (m : Machine) : (m.under g).outside = m.outside := by
  rw [Machine.outside, Machine.under, silent, Array.empty_append]
  rfl

theorem Machine.under_withSent (silent : g.told = #[]) (m : Machine) (told : Array HostEvent) :
    { m with sent := told }.under g = { m.under g with sent := told } := by
  rw [Machine.under, silent, Array.empty_append]
  rfl

/-- Halts that are alike in a guise are alike. -/
theorem Step.Alike.of_under (silent : g.told = #[]) {h h' : Step} (alike : (h.under g).Alike R (h'.under g)) :
    h.Alike (fun m m' => R (m.under g) (m'.under g)) h' := by
  have same {m m' : Machine} (same : (m.under g).outside = (m'.under g).outside) : m.outside = m'.outside := by
    rw [Machine.under_outside silent, Machine.under_outside silent] at same
    exact same
  generalize seen : h.under g = k, seen' : h'.under g = k' at alike
  cases alike with
  | paused outside goesOn =>
    cases h <;> cases seen
    cases h' <;> cases seen'
    apply Step.Alike.paused (same outside)
    intro told v
    have next := goesOn told v
    rw [← Machine.under_withSent silent, ← Machine.under_withSent silent] at next
    exact next
  | finished outside =>
    cases h <;> cases seen
    cases h' <;> cases seen'
    exact .finished (same outside)
  | failed alike outside =>
    cases h <;> cases seen
    cases h' <;> cases seen'
    obtain ⟨cause, calls⟩ := alike
    refine .failed ⟨cause, ?_⟩ (same outside)
    simp only [Failure.under, List.map_map] at calls
    exact calls
  | crashed outside =>
    cases h <;> cases seen
    cases h' <;> cases seen'
    exact .crashed (same outside)

/-- Machines that are related in a guise cannot be told apart. -/
theorem Bisimulation.of_under {s s' : Script} (silent : g.told = #[])
    (bisimulation : Bisimulation (s.under g) (s'.under g) R) :
    Bisimulation s s' fun m m' => R (m.under g) (m'.under g) where
  outside related := by
    have same := bisimulation.outside related
    rw [Machine.under_outside silent, Machine.under_outside silent] at same
    exact same
  meets := by
    intro m m' related
    have next {h : Step} {n : Machine} (seen : h.under g = .next n) : ∃ k, h = .next k ∧ n = k.under g := by
      cases h <;> cases seen
      exact ⟨_, rfl, rfl⟩
    cases bisimulation.meets related with
    | related left right again =>
      rw [← Machine.under_run] at left right
      obtain ⟨n, ranLeft, rfl⟩ := next left
      obtain ⟨n', ranRight, rfl⟩ := next right
      exact .related ranLeft ranRight again
    | halted a b alike =>
      rw [← Machine.under_run, ← Machine.under_run] at alike
      exact .halted a b (alike.of_under silent)
  calls := by
    intro m m' same idle idle' name
    change R ((m.under g).call name) ((m'.under g).call name)
    rw [← Machine.under_outside silent, ← Machine.under_outside silent m'] at same
    apply bisimulation.calls same
    · rw [Machine.under, idle]
      rfl
    · rw [Machine.under, idle']
      rfl

end Guises

end Sketch
