import Sketch.Proofs.Machine.Calls

/-!
The variables of a running sketch. A call writes to its own parameters or to globals, and when it ends its callers
find their parameters as they were.
-/

namespace Sketch

/-! ### Parameters of a call -/

section Entries

variable {α : Type} {d : Dict α} {entries : List (String × α)} {key : String}

theorem Dict.contains_insertAll :
    (d.insertAll entries).contains key = true ↔ d.contains key = true ∨ key ∈ entries.map (·.1) := by
  induction entries generalizing d with
  | nil => simp [insertAll]
  | cons entry entries ih =>
    refine ih.trans ?_
    rw [contains, get?_insert, List.map_cons, List.mem_cons]
    split
    case isTrue same => simp [same]
    case isFalse other => simp [contains, Ne.symm other]

end Entries

namespace FnDef

variable (f : FnDef) (args : List Value)

theorem names_mapIdx (params : List Param) (value : Nat → Value) :
    (params.mapIdx fun i p => (p.name, value i)).map (·.1) = params.map (·.name) := by
  apply List.ext_getElem?
  intro i
  simp [Function.comp_def]

/-- A call has just the parameters that its function declares. -/
theorem contains_bind (name : String) : (f.bind args).contains name = true ↔ name ∈ f.params.map (·.name) := by
  rw [← names_mapIdx f.params fun i => args.getD i .nil]
  exact Dict.contains_insertAll.trans (or_iff_right nofun)

end FnDef

namespace Machine

/-! ### Variables -/

/-- The parameters of the active calls, innermost first. -/
def locals (m : Machine) : List (Dict Value) := m.frames.map (·.params)

/-- A name gets a value in the innermost call, as a parameter or as a global. -/
inductive Writes (m : Machine) (name : String) (v : Value) (m' : Machine) : Prop where
  | own {params : Dict Value} {below : List (Dict Value)} (was : m.locals = params :: below)
      (has : params.contains name = true) (becomes : m'.locals = params.insert name v :: below)
      (globals : m'.globals = m.globals) : m.Writes name v m'
  | global (lacks : ∀ params ∈ m.locals.head?, params.contains name = false) (locals : m'.locals = m.locals)
      (globals : m'.globals = m.globals.insert name v) : m.Writes name v m'

/-- What a turn does to variables. -/
def Changes (m : Machine) : Turn → Machine → Prop
  | .assigns name v, m' => m.Writes name v m'
  | .calls f args, m' => m'.locals = f.bind args :: m.locals ∧ m'.globals = m.globals
  | .returns, m' => m'.locals = m.locals.tail ∧ m'.globals = m.globals
  | .moves, m' | .uses .., m' => m'.locals = m.locals ∧ m'.globals = m.globals

variable {script : Script} {m₀ m m' : Machine}

theorem Changes.congr {t : Turn} {b b' : Machine} (changes : b.Changes t b') (before : b.locals = m.locals)
    (globals : b.globals = m.globals) (after : m'.locals = b'.locals) (globals' : m'.globals = b'.globals) :
    m.Changes t m' := by
  cases t with
  | assigns name v =>
    cases changes with
    | own was has becomes same =>
      exact .own (before ▸ was) has (after.trans becomes) (by rw [globals', same, globals])
    | global lacks same inserted =>
      exact .global (before ▸ lacks) (by rw [after, same, before]) (by rw [globals', inserted, globals])
  | moves | calls | returns | uses =>
    obtain ⟨changed, same⟩ := changes
    exact ⟨by rw [after, changed, before], by rw [globals', same, globals]⟩

end Machine

end Sketch
