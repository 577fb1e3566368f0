import Sketch.Proofs.Machine.Variables

/-!
What a running sketch writes to by name stands in the statements that are left to do. If those keep to certain names,
then so do its globals at any time.
-/

namespace Sketch

variable {P : String → Prop}

/-- A call has no parameters but those that its function declares. -/
def CallFrame.Declared (script : Script) (frame : CallFrame) : Prop :=
  ∃ f, script.function? frame.function = some f ∧
    ∀ name, frame.params.contains name = true → name ∈ f.params.map (·.name)

namespace Machine

/-- Globals, writes and parameters keep to names with a property, or that functions declare. -/
structure Confined (script : Script) (P : String → Prop) (m : Machine) : Prop where
  control : m.control.WritesOnly P
  conts : ∀ k ∈ m.conts, k.WritesOnly P
  globals : ∀ name, m.globals.contains name = true → P name
  frames : ∀ frame ∈ m.frames, frame.Declared script

section Steps

variable {script : Script} {m : Machine}

namespace Confined

theorem goto (confined : m.Confined script P) {control : Control} (writes : control.WritesOnly P) :
    (m.goto control).Confined script P := { confined with control := writes }

/-- What ends a run leaves some of the active calls at most. -/
theorem leave (confined : m.Confined script P) (n : Nat) :
    { m with control := .proceed, conts := [], frames := m.frames.drop n }.Confined script P :=
  { confined with
    control := trivial
    conts := List.forall_mem_nil _
    frames := fun frame mem => confined.frames frame (List.mem_of_mem_drop mem) }

theorem abandon (confined : m.Confined script P) : m.abandon.Confined script P := by
  rw [abandon_eq]
  exact confined.leave _

theorem call (confined : m.Confined script P) (name : String) : (m.call name).Confined script P :=
  { confined with control := trivial, conts := List.forall_mem_singleton.mpr trivial }

/-- Neither the world nor what was sent has to do with names. -/
theorem outside (confined : m.Confined script P) (world : World) (sent : Array HostEvent) :
    { m with world, sent }.Confined script P := { confined with }

theorem flush (confined : m.Confined script P) (world : World) : { m with world }.flush.Confined script P :=
  confined.outside _ _

theorem moveTo (confined : m.Confined script P) (pos : Pos) : (m.moveTo pos).Confined script P := by
  rw [Machine.moveTo]
  split
  case h_1 frame rest frames =>
    have all := confined.frames
    rw [frames, List.forall_mem_cons] at all
    exact { confined with frames := List.forall_mem_cons.mpr all }
  case h_2 => exact confined

/-- A name is written to as a parameter that is there, or as a global. -/
theorem assign (confined : m.Confined script P) {name : String} (allowed : P name) (v : Value) :
    (m.assign name v).Confined script P := by
  have stored : ∀ other, (m.globals.insert name v).contains other = true → P other := by
    intro other there
    rw [Dict.contains, Dict.get?_insert] at there
    split at there
    case isTrue same => exact same ▸ allowed
    case isFalse => exact confined.globals other there
  rw [Machine.assign]
  split
  case h_1 frame rest frames =>
    split
    case isTrue own =>
      have all := confined.frames
      rw [frames, List.forall_mem_cons] at all
      obtain ⟨⟨f, found, declared⟩, others⟩ := all
      refine { confined with frames := List.forall_mem_cons.mpr ⟨⟨f, found, ?_⟩, others⟩ }
      intro other there
      rw [Dict.contains, Dict.get?_insert] at there
      split at there
      case isTrue same => exact same ▸ declared name own
      case isFalse => exact declared other there
    case isFalse => exact { confined with globals := stored }
  case h_2 => exact { confined with globals := stored }

theorem endCall (confined : m.Confined script P) (v : Value) : (m.endCall v).Confined script P :=
  { confined with control := trivial, frames := fun frame mem => confined.frames frame (List.mem_of_mem_tail mem) }

end Confined

variable (line : Nat)

theorem fail_confined (confined : m.Confined script P) (c : Cause) :
    (m.fail line c).machine.Confined script P := by
  rw [fail_eq]
  exact confined.leave _

theorem perform_confined {α : Type} (confined : m.Confined script P) {action : Action α} {k : α → Machine → Step}
    (goes : ∀ a world, (k a { m with world }.flush).machine.Confined script P) :
    (m.perform line action k).machine.Confined script P := by
  rw [perform]
  split
  case h_1 a world _ => exact goes a world
  case h_2 c world _ => exact fail_confined line (confined.flush world) c
  case h_3 world _ => exact confined.outside world m.sent

variable {name : String} {f : FnDef}

/-- The parameters of a new call are those of its function. -/
theorem declared_of_call (found : script.function? name = some f) (args : List Value) :
    CallFrame.Declared script ⟨f.name, f.bind args, f.pos⟩ := by
  have named : f.name = name := by simpa using List.find?_some found
  exact ⟨f, named ▸ found, fun param => (f.contains_bind args param).mp⟩

theorem callUser_confined (confined : m.Confined script P) (writes : script.WritesOnly P)
    (found : script.function? name = some f) (args : List Value) :
    (callUser script m f args line).machine.Confined script P := by
  have body : BlockWritesOnly P f.body := writes f (List.mem_of_find?_eq_some found)
  rw [callUser]
  split
  case isTrue => exact fail_confined line confined _
  case isFalse =>
    exact {
      control := trivial
      conts := List.forall_mem_cons.mpr ⟨body, List.forall_mem_cons.mpr ⟨trivial, confined.conts⟩⟩
      globals := confined.globals
      frames := List.forall_mem_cons.mpr ⟨declared_of_call found args, confined.frames⟩ }

/-- A turn keeps to the names that were left to write to. -/
theorem Takes.confined {control : Control} {used : List Cont} {t : Turn} {op : Option MapOp} {s : Step}
    (takes : m.Takes script control used t op s) (confined : m.Confined script P) (writes : script.WritesOnly P)
    (own : control.WritesOnly P) (spent : ∀ k ∈ used, k.WritesOnly P) : s.machine.Confined script P := by
  have value {α : Type} {line : Nat} {action : Action α} {goal : α → Control} (plain : ∀ a, (goal a).WritesOnly P) :
      (m.perform line action fun a m => .next (m.goto (goal a))).machine.Confined script P :=
    perform_confined line confined fun a world => (confined.flush world).goto (plain a)
  cases takes with
  | moves control' new passes =>
    obtain ⟨next, more⟩ := passes.keeps (by simp) own spent
    exact { confined with control := next, conts := List.forall_mem_append.mpr ⟨more, confined.conts⟩ }
  | assigns name v control' new works keeps =>
    have assigned := confined.assign (keeps P own spent) v
    obtain ⟨next, more⟩ := works.keeps P own spent
    exact { assigned with control := next, conts := List.forall_mem_append.mpr ⟨more, assigned.conts⟩ }
  | fails _ line | refuses _ _ _ line => exact fail_confined line confined _
  | works _ line goal _ _ works => exact value fun a => ((works a).keeps P own spent).1
  | calls found args line => exact callUser_confined line confined writes found args
  | returns v => exact confined.endCall v
  | uses => exact value fun _ => trivial
  | pauses _ _ _ _ line => exact perform_confined line confined fun _ world => confined.flush world

theorem Confined.begun (confined : m.Confined script P) : m.begun.Confined script P := by
  rw [Machine.begun]
  split
  · exact confined.moveTo _
  · exact confined

/-- A step keeps to the names that were left to write to. -/
theorem step_confined (confined : m.Confined script P) (writes : script.WritesOnly P) :
    (m.step script).machine.Confined script P := by
  rcases step_takes script m with finishes | ⟨used, rest, conts, takes⟩
  · rw [finishes.step]
    exact confined
  · have all := confined.conts
    rw [conts, List.forall_mem_append] at all
    exact takes.confined { confined.begun with conts := all.2 } writes confined.control all.1

/-- So does a run. -/
theorem run_confined (confined : m.Confined script P) (writes : script.WritesOnly P) (fuel : Nat) :
    (m.run script fuel).machine.Confined script P := by
  induction fuel generalizing m with
  | zero => exact confined
  | succ fuel ih =>
    have stepped := step_confined confined writes
    rw [run]
    split
    case h_1 m' taken =>
      rw [taken] at stepped
      exact ih stepped
    case h_2 => exact stepped

end Steps

end Machine

end Sketch
