import Mathlib.Data.List.Nodup
import Sketch.Library.Call

/-!
Names of the standard library. What a library exports and what it does are listed apart, and the lists agree.
-/

namespace Sketch

/-- In a list without two things of one name, each is found by its name. -/
theorem find?_name_eq_some_iff {α : Type} {all : List α} {name : α → String} (distinct : (all.map name).Nodup)
    {s : String} {a : α} : all.find? (name · = s) = some a ↔ a ∈ all ∧ name a = s := by
  constructor
  · intro found
    exact ⟨List.mem_of_find?_eq_some found, by simpa using List.find?_some found⟩
  · rintro ⟨mem, rfl⟩
    cases found : all.find? (name · = name a) with
    | none =>
      have absent := List.find?_eq_none.mp found a mem
      simp at absent
    | some b =>
      have same : name b = name a := by simpa using List.find?_some found
      rw [List.inj_on_of_nodup_map distinct (List.mem_of_find?_eq_some found) mem same]

/-! ### Functions by name -/

theorem Library.mem_all (l : Library) : l ∈ all := by cases l <;> decide

namespace Builtin

/-- The library that exports a function. -/
def library : Builtin → Library
  | .canvas _ => .canvas
  | .math _ => .math
  | .lists _ => .lists
  | .console _ | .pause _ => .io
  | .sense _ => .input
  | .cipher _ => .cipher

def all : List Builtin := PauseFn.all.map .pause ++ Library.all.flatMap Library.functions

/-- The function that a call by name finds. -/
def ofName? (s : String) : Option Builtin := all.find? (·.name = s)

/-- No two functions have one name. -/
theorem nodup_names : (all.map name).Nodup := by
  decide +kernel

theorem mem_functions (f : Builtin) (acts : f.action?.isSome = true) : f ∈ f.library.functions := by
  cases f with
  | canvas f => cases f <;> decide
  | math f =>
    cases f with
    | unary f => cases f <;> decide
    | _ => decide
  | lists f => cases f <;> decide
  | console f => cases f <;> decide
  | pause f => cases acts
  | sense f => cases f <;> decide
  | cipher f => cases f <;> decide

theorem mem_all (f : Builtin) : f ∈ all := by
  cases f with
  | pause f => cases f <;> decide
  | _ => exact List.mem_append_right _ (List.mem_flatMap.mpr ⟨_, Library.mem_all _, mem_functions _ rfl⟩)

variable {s : String}

theorem ofName?_eq_some_iff {f : Builtin} : ofName? s = some f ↔ f.name = s := by
  rw [ofName?, find?_name_eq_some_iff nodup_names]
  exact and_iff_right (mem_all f)

/-- Functions are found by their names. -/
theorem ofName?_name (f : Builtin) : ofName? f.name = some f := ofName?_eq_some_iff.mpr rfl

theorem pauseOf?_eq_some_iff {p : PauseFn} : pauseOf? s = some p ↔ ofName? s = some (.pause p) := by
  have distinct : (PauseFn.all.map PauseFn.name).Nodup := by decide
  rw [pauseOf?, find?_name_eq_some_iff distinct, ofName?_eq_some_iff]
  exact and_iff_right (by cases p <;> decide)

/-- A call pauses if the function that has the name does. -/
theorem pauseOf?_eq (s : String) : pauseOf? s =
    match ofName? s with
    | some (.pause p) => some p
    | _ => none := by
  apply Option.ext
  intro p
  rw [pauseOf?_eq_some_iff]
  split <;> simp_all

end Builtin

/-! ### What the libraries do -/

variable {l : Library} {s : String} {action : List Value → Action Value}

theorem Library.mem_functions {f : Builtin} (mem : f ∈ l.functions) : f.library = l ∧ f.action?.isSome = true := by
  cases l
  all_goals
    obtain ⟨f, -, rfl⟩ := List.mem_map.mp mem
    exact ⟨rfl, rfl⟩

/-- A library does what it has a function of that name for. -/
theorem Library.actionOf?_eq_some_iff : l.actionOf? s = some action ↔
    ∃ f, Builtin.ofName? s = some f ∧ f.library = l ∧ f.action? = some action := by
  have distinct : (l.functions.map Builtin.name).Nodup := by cases l <;> decide
  rw [actionOf?, Option.bind_eq_some_iff]
  simp only [find?_name_eq_some_iff distinct, Builtin.ofName?_eq_some_iff]
  constructor
  · rintro ⟨f, ⟨mem, named⟩, performs⟩
    exact ⟨f, named, (mem_functions mem).1, performs⟩
  · rintro ⟨f, named, rfl, performs⟩
    exact ⟨f, ⟨f.mem_functions (by rw [performs]; rfl), named⟩, performs⟩

theorem Library.actionOf?_eq (l : Library) (s : String) :
    l.actionOf? s = ((Builtin.ofName? s).filter (l = ·.library)).bind Builtin.action? := by
  apply Option.ext
  intro action
  rw [actionOf?_eq_some_iff, Option.bind_eq_some_iff]
  simp only [Option.filter_eq_some_iff, decide_eq_true_eq, eq_comm (a := l), and_assoc]

/-- A call finds the action of the function that has the name. -/
theorem Builtin.actionOf?_eq (s : String) : actionOf? s = (ofName? s).bind action? := by
  apply Option.ext
  intro action
  rw [actionOf?, Option.bind_eq_some_iff]
  constructor
  · intro found
    obtain ⟨l, -, does⟩ := List.exists_of_findSome?_eq_some found
    obtain ⟨f, named, -, performs⟩ := Library.actionOf?_eq_some_iff.mp does
    exact ⟨f, named, performs⟩
  · rintro ⟨f, named, performs⟩
    -- In the other libraries nothing has this name, so that the order of the libraries does not matter.
    have own : f.library.actionOf? s = some action := Library.actionOf?_eq_some_iff.mpr ⟨f, named, rfl, performs⟩
    cases found : Library.all.findSome? (·.actionOf? s) with
    | none =>
      have absent := List.findSome?_eq_none_iff.mp found f.library (Library.mem_all _)
      rw [own] at absent
      cases absent
    | some other =>
      obtain ⟨l, -, does⟩ := List.exists_of_findSome?_eq_some found
      obtain ⟨g, named', -, performs'⟩ := Library.actionOf?_eq_some_iff.mp does
      cases named.symm.trans named'
      exact performs'.symm.trans performs

/-! ### What the libraries export -/

/-- What a library does when called, pauses included, are its functions. -/
theorem Library.does_iff (l : Library) (s : String) :
    (l.actionOf? s).isSome = true ∨ l = .io ∧ (Builtin.pauseOf? s).isSome = true ↔
      ∃ f : Builtin, f.library = l ∧ f.name = s := by
  simp only [Option.isSome_iff_exists, actionOf?_eq_some_iff, Builtin.pauseOf?_eq_some_iff,
    Builtin.ofName?_eq_some_iff]
  constructor
  · rintro (⟨_, f, named, own, -⟩ | ⟨rfl, p, named⟩)
    · exact ⟨f, own, named⟩
    · exact ⟨.pause p, rfl, named⟩
  · rintro ⟨f, rfl, named⟩
    cases f with
    | pause p => exact .inr ⟨rfl, p, named⟩
    | _ => exact .inl ⟨_, _, named, rfl, rfl⟩

/-- A library exports as functions just what it does. -/
theorem Library.mem_exports_iff (l : Library) (s : String) : ⟨s, .function⟩ ∈ l.exports ↔
    (l.actionOf? s).isSome = true ∨ l = .io ∧ (Builtin.pauseOf? s).isSome = true := by
  have listed : ∀ e ∈ l.exports, e.kind = .function → ∃ f ∈ Builtin.all, f.library = l ∧ f.name = e.name := by
    cases l <;> decide +kernel
  have exported : ∀ f ∈ Builtin.all, ⟨f.name, .function⟩ ∈ f.library.exports := by
    decide +kernel
  rw [does_iff]
  constructor
  · intro mem
    obtain ⟨f, -, own, named⟩ := listed _ mem rfl
    exact ⟨f, own, named⟩
  · rintro ⟨f, rfl, rfl⟩
    exact exported f f.mem_all

theorem Library.exported_iff (kind : ExportKind) (s : String) :
    exported kind s = true ↔ ∃ l : Library, ⟨s, kind⟩ ∈ l.exports := by
  simp [exported, Library.mem_all]

/-- A name is exported as a function just if a call finds one. -/
theorem Library.exported_function (s : String) : exported .function s = (Builtin.ofName? s).isSome := by
  rw [Bool.eq_iff_iff, exported_iff, Option.isSome_iff_exists]
  simp only [mem_exports_iff, does_iff, Builtin.ofName?_eq_some_iff]
  exact ⟨fun ⟨_, f, _, named⟩ => ⟨f, named⟩, fun ⟨f, named⟩ => ⟨_, f, rfl, named⟩⟩

/-- A name is exported as a reading just if there is one. -/
theorem Library.exported_reading (s : String) : exported .reading s = (Reading.ofName? s).isSome := by
  have listed : ∀ l ∈ all, ∀ e ∈ l.exports, e.kind = .reading → (Reading.ofName? e.name).isSome = true := by
    decide +kernel
  have exported : ∀ r ∈ Reading.all, exported .reading r.name = true := by
    decide +kernel
  rw [Bool.eq_iff_iff]
  constructor
  · intro there
    obtain ⟨l, mem⟩ := (exported_iff _ s).mp there
    exact listed l (mem_all l) _ mem rfl
  · intro found
    obtain ⟨r, found⟩ := Option.isSome_iff_exists.mp found
    have named : r.name = s := by simpa using List.find?_some found
    exact named ▸ exported r (List.mem_of_find?_eq_some found)

end Sketch
