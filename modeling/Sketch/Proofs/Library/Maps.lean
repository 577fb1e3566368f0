import Sketch.Proofs.Heap.MapHistory

/-!
What library calls and writes do to maps. Of all library functions only two change maps, and each writes to one map.
-/

namespace Sketch

/-- All maps, whether or not they can still be reached. -/
def World.maps (w : World) : Array (Dict Value) := w.heap.maps

instance World.maps_besideLists : BesideLists World.maps := ⟨fun _ _ => rfl⟩

instance World.maps_besideCanvas : BesideCanvas World.maps := ⟨fun _ _ => rfl⟩

/-- The world after something is done to maps, or after nothing. -/
def World.after (w : World) (op : Option MapOp) : World := op.elim w (·.after w)

/-! ### Library calls -/

/-- What a function on lists and maps does to maps. -/
def ListFn.mapOp? : ListFn → List Value → Option MapOp
  | .append, [.map r, .map q] => some (.append r q)
  | .setItem, [.map r, key, v] => some (.setItem r key v)
  | _, _ => none

def Builtin.mapOp? (values : List Value) : Builtin → Option MapOp
  | .lists f => f.mapOp? values
  | _ => none

section Library

variable (values : List Value) (w : World)

theorem append_maps : ((ListFn.append.perform values).after w).maps = (w.after (ListFn.append.mapOp? values)).maps := by
  by_cases two : values.length = 2
  · obtain ⟨target, item, rfl⟩ := List.length_eq_two.mp two
    cases target with
    | map r => cases item <;> rfl
    | _ => rfl
  · have none : ListFn.append.mapOp? values = none := by
      rw [ListFn.mapOp?.eq_def]
      split
      case h_1 => exact absurd rfl two
      case h_2 known => cases known
      case h_3 => rfl
    simp only [none, ListFn.perform, expect_eq_fail two]
    rfl

theorem setItem_maps :
    ((ListFn.setItem.perform values).after w).maps = (w.after (ListFn.setItem.mapOp? values)).maps := by
  by_cases three : values.length = 3
  · obtain ⟨target, key, v, rfl⟩ := List.length_eq_three.mp three
    cases target with
    | map r => rfl
    | list r =>
      have stored : Tidy World.maps (setItemOf (.list r) key v) := by
        rw [setItemOf]
        infer_instance
      exact stored.after w
    | _ => rfl
  · have none : ListFn.setItem.mapOp? values = none := by
      rw [ListFn.mapOp?.eq_def]
      split
      case h_1 known => cases known
      case h_2 => exact absurd rfl three
      case h_3 => rfl
    simp only [none, ListFn.perform, expect_eq_fail three]
    rfl

theorem ListFn.perform_maps (f : ListFn) : ((f.perform values).after w).maps = (w.after (f.mapOp? values)).maps := by
  cases f with
  | append => exact append_maps values w
  | setItem => exact setItem_maps values w
  | createList | getLength | getItem =>
    simp only [ListFn.perform]
    exact Tidy.after inferInstance w

/-- Of all library functions only two change maps. -/
theorem action_maps {f : Builtin} {action : List Value → Action Value} (known : f.action? = some action) :
    ((action values).after w).maps = (w.after (f.mapOp? values)).maps := by
  cases f with
  | lists f =>
    cases known
    exact f.perform_maps values w
  | canvas | math | console | sense | cipher | pause =>
    exact (Builtin.action_tidy values known (by simp) fun g _ => g.perform_tidy values).after w

end Library

/-! ### Writes -/

def Place.mapOp? (v : Value) : Place → Option MapOp
  | .index (.map r) key => some (.index r key v)
  | .field (.map r) key => some (.field r key v)
  | _ => none

theorem storeIndex_maps (w : World) (object key v : Value) :
    ((storeIndex object key v).after w).maps = (w.after ((Place.index object key).mapOp? v)).maps := by
  cases object with
  | map r => rfl
  | list r => exact (storeItem_tidy r key v).after w
  | _ => rfl

theorem storeField_maps (w : World) (object : Value) (name : String) (v : Value) :
    ((storeField object name v).after w).maps = (w.after ((Place.field object name).mapOp? v)).maps := by
  cases object <;> rfl

end Sketch
