import Sketch.Proofs.Engine.Sequel

/-!
The machines in an engine. Each is one that its sketch can come to, by its own steps and by what an engine does to a
run.
-/

namespace Sketch

/-- The machines that a script can come to, whatever is done to the world meanwhile. -/
inductive Machine.Lives (script : Script) : Machine → Prop where
  | start (canvas : Canvas) : Lives script (.start script canvas)
  | run {m : Machine} (lives : Lives script m) (fuel : Nat) : Lives script (m.run script fuel).machine
  | outside {m : Machine} (lives : Lives script m) (world : World) (sent : Array HostEvent) :
      Lives script { m with world, sent }
  | resume {m : Machine} (lives : Lives script m) (v : Value) : Lives script (m.resume v)
  | call {m : Machine} (lives : Lives script m) (name : String) : Lives script (m.call name)
  | abandon {m : Machine} (lives : Lives script m) : Lives script m.abandon

/-- A run is of an accepted sketch, and its machine is one that the sketch can come to. -/
def Run.Lives (r : Run) : Prop :=
  ∃ program warnings depth, compile r.source = .ok (program, warnings) ∧ r.script = .ofProgram program depth ∧
    r.machine.Lives r.script

/-- The machine of a run after some more steps. -/
def Run.after (r : Run) (steps : Nat) : Machine := (r.machine.run r.script steps).machine

namespace Engine

/-- Every run stands as it stood, or it is `r` with a machine that its sketch can come to. -/
def Continues (e : Engine) (r : Run) (next : Engine) : Prop :=
  ∀ order s, next.run? order = some s →
    e.run? order = some s ∨ ∃ m phase, s = { r with machine := m, phase } ∧ m.Lives r.script

section Continuing

variable {e next : Engine} {order : Nat} {r : Run} {m : Machine}

variable {phase : Phase}

theorem Continues.set (lives : m.Lives r.script)
    (runs : next.runs = e.runs.set order (some { r with machine := m, phase })) : Continues e r next := by
  intro other s found
  rw [run?, runs, List.getElem?_set] at found
  split at found
  case isTrue =>
    split at found
    case isTrue =>
      cases found
      exact .inr ⟨m, phase, rfl, lives⟩
    case isFalse => cases found
  case isFalse => exact .inl found

theorem closing_lives (lives : m.Lives r.script) (stage : Stage) (ending : Ending) :
    (e.closing r stage m ending).machine.Lives r.script := by
  obtain ⟨-, world, machine⟩ := closing_parts e r stage m ending
  rw [machine]
  exact lives.outside world #[]

theorem halting_lives (stage : Stage) {halt : Step} (lives : halt.machine.Lives r.script) :
    (e.halting r stage halt).machine.Lives r.script := by
  cases halt with
  | next m => exact lives.outside m.world #[]
  | finished m => exact closing_lives lives stage _
  | failed f m => exact closing_lives lives stage _
  | crashed m => cases stage <;> exact lives.outside m.world #[]
  | paused p m =>
    rw [halting]
    split
    case isTrue => exact closing_lives lives.abandon stage _
    case isFalse => exact lives.outside m.world #[]

theorem change_lives {c : Change} (lives : r.machine.Lives r.script) (changes : e.change? r = some c) :
    c.machine.Lives r.script := by
  cases changes_of_change? changes with
  | stopped => exact closing_lives lives.abandon _ _
  | resumed => exact lives.resume _
  | halted => exact halting_lives _ (lives.run _)
  | scheduled => exact lives
  | begins => exact (lives.outside _ r.machine.sent).call _

theorem goOn_continues (lives : r.machine.Lives r.script) : Continues e r (e.goOn order r) := by
  rw [goOn_eq]
  cases changes : e.change? r with
  | none => exact fun _ _ found => .inl found
  | some c => exact .set (change_lives lives changes) rfl

end Continuing

variable {e : Engine} {r : Run}

/-- A run that is torn down keeps its machine. -/
theorem teardown_lives (live : ∀ order r, e.run? order = some r → r.Lives) (order : Nat)
    (found : e.teardown.run? order = some r) : r.Lives := by
  rw [teardown_run?] at found
  split at found
  case isTrue =>
    obtain ⟨torn, there, rfl⟩ := Option.map_eq_some_iff.mp found
    exact live order torn there
  case isFalse => exact live order r found

/-- The run of a new order begins at the start of its script. -/
theorem execute_lives {source : String} (found : (e.execute source).run? e.runs.length = some r) : r.Lives := by
  obtain ⟨program, warnings, compiled, rfl⟩ := ordered_run found
  exact ⟨program, warnings, _, compiled, rfl, .start _⟩

/-- Whatever move is made, all runs are of accepted sketches. -/
theorem move_lives {next : Engine} {move : Move} (made : Made e move next)
    (live : ∀ order r, e.run? order = some r → r.Lives) : ∀ order r, next.run? order = some r → r.Lives := by
  intro order r found
  cases made with
  | execute source =>
    by_cases latest : order = e.runs.length
    · subst latest
      exact execute_lives found
    · rw [execute_run?_of_ne e source latest] at found
      exact teardown_lives live order found
  | stop =>
    rw [stop_run?] at found
    exact teardown_lives live order found
  | device | clock => exact live order r found
  | @answer k asking stage reply asked =>
    obtain ⟨program, warnings, depth, accepted, script, lives⟩ := live k asking asked
    rcases Continues.set lives rfl order r found with same | ⟨m, phase, rfl, lives⟩
    · exact live order r same
    · exact ⟨program, warnings, depth, accepted, script, lives⟩
  | @poll polled s _ asked =>
    obtain ⟨program, warnings, depth, accepted, script, lives⟩ := live polled s asked
    rcases goOn_continues lives order r found with same | ⟨m, phase, rfl, lives⟩
    · exact live order r same
    · exact ⟨program, warnings, depth, accepted, script, lives⟩

/-- Every machine in an engine is one that its sketch can come to. -/
theorem lives_of_reachable (reachable : e.Reachable) : ∀ order r, e.run? order = some r → r.Lives := by
  obtain ⟨config, answers, reaches⟩ := reachable
  induction reaches with
  | refl =>
    intro order r found
    cases found
  | tail _ moved ih =>
    obtain ⟨move, moved⟩ := moved
    exact move_lives (made_of_move? moved) ih

end Engine

end Sketch
