import Sketch.Proofs.Engine.Lives
import Sketch.Proofs.Machine.Confinement

/-!
Readings stay live. A sketch that writes to a reading by name is rejected, so no run has a global of that name.
-/

namespace Sketch

/-- The reading is found by its name. -/
theorem Reading.ofName?_name (reading : Reading) : ofName? reading.name = some reading := by
  cases reading <;> decide +kernel

/-- A name that a sketch may write to. -/
def Writable (name : String) : Prop := Reading.ofName? name = none

/-! ### Accepted programs -/

section Accepted

variable {source : String} {program : Program} {warnings : List Diagnostic}
  (accepted : compile source = .ok (program, warnings))

include accepted

/-- An accepted program writes to no reading. -/
theorem writable_of_compile {n : Node} (there : n ∈ program.nodes)
    {write : String × Pos} (writes : write ∈ n.write?) : Writable write.1 := by
  cases reading : Reading.ofName? write.1 with
  | none => exact reading
  | some r =>
    have fault : ⟨.readOnlyName write.1, write.2⟩ ∈ Lint.lint program := by
      rw [Lint.lint_eq]
      refine List.mem_append_right _ (List.mem_flatMap.mpr ⟨n, there, List.mem_append_left _ ?_⟩)
      rw [Option.mem_def.mp writes, Option.elim_some, Lint.writeFaults, Library.exported_reading, reading]
      exact List.mem_singleton_self _
    obtain ⟨s, -, -, clean⟩ := read_of_compile accepted
    cases clean _ fault

/-- Nor do the statements of its script. -/
theorem block_of_compile {body : List Stmt}
    (there : ∀ s ∈ body, s ∈ program.items.flatMap Item.body) : BlockWritesOnly Writable body := by
  intro s mem part below write writes
  exact writable_of_compile accepted (List.mem_flatMap.mpr ⟨s, there s mem, below⟩) writes

theorem topLevel_of_compile : BlockWritesOnly Writable program.topLevel := by
  apply block_of_compile accepted
  intro s mem
  obtain ⟨item, inside, given⟩ := List.mem_filterMap.mp mem
  cases item with
  | function => cases given
  | stmt s =>
    cases given
    exact List.mem_flatMap.mpr ⟨_, inside, List.mem_singleton_self _⟩

theorem functions_of_compile (depth : Nat) : (Script.ofProgram program depth).WritesOnly Writable := by
  intro f mem
  apply block_of_compile accepted
  intro s inBody
  obtain ⟨item, inside, given⟩ := List.mem_filterMap.mp mem
  cases item with
  | stmt => cases given
  | function f =>
    cases given
    exact List.mem_flatMap.mpr ⟨_, inside, inBody⟩

end Accepted

/-! ### Runs -/

namespace Machine

variable {script : Script} {m : Machine}

/-- What is left to do keeps to the names that the script writes to. -/
theorem Lives.confined {P : String → Prop} (lives : m.Lives script) (top : BlockWritesOnly P script.topLevel)
    (writes : script.WritesOnly P) : m.Confined script P := by
  induction lives with
  | start canvas =>
    exact {
      control := trivial
      conts := List.forall_mem_cons.mpr ⟨top, List.forall_mem_singleton.mpr trivial⟩
      globals := fun _ there => by cases there
      frames := List.forall_mem_nil _ }
  | run _ fuel confined => exact run_confined confined writes fuel
  | outside _ world sent confined => exact confined.outside world sent
  | resume _ v confined => exact confined.goto trivial
  | call _ name confined => exact confined.call name
  | abandon _ confined => exact confined.abandon

/-- The function that is being done. -/
def function? (script : Script) (m : Machine) : Option FnDef :=
  m.frames.head?.bind fun frame => script.function? frame.function

/-- A call has no parameter that its function does not declare. -/
theorem Confined.param?_eq_none {P : String → Prop} (confined : m.Confined script P) {name : String}
    (outside : ∀ f, m.function? script = some f → name ∉ f.params.map (·.name)) : m.param? name = none := by
  rw [param?]
  split
  case h_2 => rfl
  case h_1 frame rest frames =>
    obtain ⟨f, found, declared⟩ := confined.frames frame (frames ▸ List.mem_cons_self)
    have absent : ¬frame.params.contains name = true := by
      intro there
      refine outside f ?_ (declared name there)
      rw [function?, frames]
      exact found
    rw [Dict.contains, Option.not_isSome_iff_eq_none] at absent
    exact absent

end Machine

/-- Every run is of a sketch that was accepted, and at no point of it there is a global of the name of a reading.
    So wherever the function that is being done has no parameter of that name, the name stands for what the reading
    is then. -/
theorem Engine.readings_stay_live {e : Engine} (reachable : e.Reachable) {order : Nat} {r : Run}
    (found : e.run? order = some r) (steps : Nat) (reading : Reading) :
    (∃ program warnings, compile r.source = .ok (program, warnings)) ∧
    (r.after steps).globals.contains reading.name = false ∧
    ((∀ f, (r.after steps).function? r.script = some f → reading.name ∉ f.params.map (·.name)) →
      (r.after steps).read reading.name = .ok (reading.value (r.after steps).world.canvas) ∧
      ∀ pos, (r.after steps).control = .eval (.ident reading.name pos) →
        (r.after steps).step r.script =
          .next ((r.after steps).goto (.deliver (reading.value (r.after steps).world.canvas)))) := by
  obtain ⟨program, warnings, depth, accepted, script, lives⟩ := lives_of_reachable reachable order r found
  have confined : (r.after steps).Confined r.script Writable := by
    apply (lives.run steps).confined
    · exact script ▸ topLevel_of_compile accepted
    · exact script ▸ functions_of_compile accepted depth
  have global : (r.after steps).globals.contains reading.name = false := by
    rw [Bool.eq_false_iff]
    intro there
    have writable := confined.globals reading.name there
    rw [Writable, Reading.ofName?_name] at writable
    cases writable
  refine ⟨⟨program, warnings, accepted⟩, global, fun outside => ?_⟩
  have reads : (r.after steps).read reading.name = .ok (reading.value (r.after steps).world.canvas) := by
    rw [Dict.contains, Option.isSome_eq_false_iff, Option.isNone_iff_eq_none] at global
    rw [Machine.read, confined.param?_eq_none outside, global, Reading.ofName?_name]
  refine ⟨reads, fun pos control => ?_⟩
  rw [Machine.step, control]
  exact congrArg (Machine.deliverOr _ pos.line) reads

/-- The name that is looked up next. -/
def Machine.lookup? (m : Machine) : Option String :=
  match m.control with
  | .eval (.ident name _) => some name
  | _ => none

/-- A sketch that reads `mouseX`, and has a function with a parameter of that name. -/
def shadowingSource : String := "x = mouseX function draw(mouseX) \x7b y = mouseX \x7d"

/-- The sketch is accepted. However long it runs, it has no global `mouseX`, and after two steps it reads the pointer
    by that name. -/
theorem Engine.mouseX_stays_live :
    ∃ (e : Engine) (r : Run), e.Reachable ∧ e.run? 0 = some r ∧ r.source = shadowingSource ∧
      (∀ steps, (r.after steps).globals.contains "mouseX" = false) ∧
      ∃ pos, (r.after 2).control = .eval (.ident "mouseX" pos) ∧ (r.after 2).step r.script =
        .next ((r.after 2).goto (.deliver (Reading.mouseX.value (r.after 2).world.canvas))) := by
  let e := (Engine.new default .live).execute shadowingSource
  have reachable : e.Reachable := ⟨default, .live, .single ⟨.execute shadowingSource, rfl⟩⟩
  have begins : (e.run? 0).any (fun r => r.source = shadowingSource ∧ (r.after 2).function? r.script = none ∧
      (r.after 2).lookup? = some "mouseX") = true := by decide +kernel
  obtain ⟨r, found, begins⟩ := (Option.any_eq_true _ _).mp begins
  obtain ⟨source, outside, reads⟩ := of_decide_eq_true begins
  have live (steps : Nat) := readings_stay_live reachable found steps .mouseX
  refine ⟨e, r, reachable, found, source, fun steps => (live steps).2.1, ?_⟩
  rw [Machine.lookup?] at reads
  split at reads
  case h_1 pos control =>
    cases reads
    have named (f : FnDef) (current : (r.after 2).function? r.script = some f) :
        Reading.mouseX.name ∉ f.params.map (·.name) := by
      cases outside.symm.trans current
    exact ⟨pos, control, ((live 2).2.2 named).2 pos control⟩
  case h_2 => cases reads

end Sketch
