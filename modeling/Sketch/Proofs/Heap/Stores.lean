import Sketch.Proofs.Heap.Dictionaries
import Sketch.Proofs.Heap.Printing
import Sketch.Proofs.Library.Failure

/-!
Stores into a map under the text of a key. A key from which the map can be reached makes the store clash; every other
store changes one entry and nothing else.
-/

namespace Sketch

/-- A world after a store in a map: one entry is changed or added, and all else is as it was. -/
structure World.Stores (w : World) (r : MapRef) (text : String) (v : Value) (w' : World) : Prop where
  canvas : w'.canvas = w.canvas
  lists : w'.heap.lists = w.heap.lists
  made : w'.heap.maps.size = w.heap.maps.size
  others : ∀ q, r ≠ q → w'.heap.map q = w.heap.map q
  found : (w'.heap.map r).get? text = some v
  entries : (∃ before old after, (w.heap.map r).entries = before ++ (text, old) :: after ∧ text ∉ before.map (·.1) ∧
      (w'.heap.map r).entries = before ++ (text, v) :: after) ∨
    (text ∉ (w.heap.map r).keys ∧ (w'.heap.map r).entries = (w.heap.map r).entries ++ [(text, v)])

def World.store (w : World) (r : MapRef) (text : String) (v : Value) : World :=
  { w with heap := w.heap.modifyMap r (·.insert text v) }

section Stores

variable {w : World} {r : MapRef} {key v : Value}

theorem World.stores_store (made : w.heap.Made r) (text : String) : w.Stores r text v (w.store r text v) where
  canvas := rfl
  lists := rfl
  made := Array.size_modify
  others q other := by
    rw [store, Heap.map_modifyMap w.heap made, if_neg other]
  found := by
    rw [store, Heap.map_modifyMap w.heap made, if_pos rfl, Dict.get?_insert, if_pos rfl]
  entries := by
    rw [store, Heap.map_modifyMap w.heap made, if_pos rfl]
    exact Dict.insert_cases (w.heap.map r) text v

/-- While a map is held its key is printed. Where the printer wants to read the map, all breaks off. -/
theorem storeEntry_run : (storeEntry r key v).run w =
    match w.heap.write (some (.map r)) key [] with
    | some (.ok text, _) => .ok () (w.store r text v)
    | some (.error _, _) | none => .error .crash w := by
  change (if w.heap.shows (.map r) key then (throw .crash : Action Unit)
    else World.onMap r (·.insert (w.heap.display key) v)).run w = _
  by_cases reached : w.heap.Reaches key (.map r)
  · obtain ⟨stack, ran⟩ := Heap.write_of_reached reached
    rw [if_pos (Heap.shows_iff.mpr reached), ran]
    rfl
  · rw [if_neg (fun shown => reached (Heap.shows_iff.mp shown)), Heap.write_of_unreached reached]
    rfl

theorem storeIndex_map : storeIndex (.map r) key v = storeEntry r key v := rfl

theorem setItem_map_run : (ListFn.setItem.perform [.map r, key, v]).run w =
    match (storeEntry r key v).run w with
    | .ok _ w' => .ok (.map r) w'
    | .error abort w' => .error abort w' := by
  change (storeEntry r key v >>= fun _ => pure (Value.map r)).run w = _
  rw [EStateM.run_bind]
  cases (storeEntry r key v).run w <;> rfl

end Stores

/-- A store into a map fails for one reason only: the map can be reached from the key, so that it would have to be read
    for the text of the key while it is being changed. Then nothing changes. In all other cases, however lists and
    maps hold one another, the map has the value under the text that the key had before, and nothing else changes. -/
theorem map_stores_clash_only_with_their_keys (w : World) {r : MapRef} (made : w.heap.Made r) (key v : Value) :
    (w.heap.Reaches key (.map r) →
      (∃ stack, w.heap.write (some (.map r)) key [] = some (.error (.map r), stack)) ∧
      (storeIndex (.map r) key v).run w = .error .crash w ∧
      (ListFn.setItem.perform [.map r, key, v]).run w = .error .crash w) ∧
    (¬w.heap.Reaches key (.map r) →
      w.heap.write (some (.map r)) key [] = some (.ok (w.heap.display key), []) ∧
      ∃ w', (storeIndex (.map r) key v).run w = .ok () w' ∧
        (ListFn.setItem.perform [.map r, key, v]).run w = .ok (.map r) w' ∧
        w.Stores r (w.heap.display key) v w') := by
  rw [setItem_map_run, storeIndex_map, storeEntry_run]
  constructor
  · intro reached
    obtain ⟨stack, ran⟩ := Heap.write_of_reached reached
    rw [ran]
    exact ⟨⟨stack, rfl⟩, rfl, rfl⟩
  · intro unreached
    rw [Heap.write_of_unreached unreached]
    exact ⟨rfl, _, rfl, rfl, World.stores_store made _⟩

/-- A map that holds itself takes a new value for that entry, but no value under itself or under a list that holds
    it. -/
theorem entangled_map_stores :
    entangled.heap.Made ⟨0⟩ ∧
    (∃ w', (storeIndex (.map ⟨0⟩) (.str "self") .nil).run entangled = .ok () w' ∧
      entangled.Stores ⟨0⟩ "self" .nil w') ∧
    (storeIndex (.map ⟨0⟩) (.map ⟨0⟩) .nil).run entangled = .error .crash entangled ∧
    (ListFn.setItem.perform [.map ⟨0⟩, .list ⟨0⟩, .nil]).run entangled = .error .crash entangled := by
  have made : entangled.heap.Made ⟨0⟩ := by
    rw [Heap.Made]
    decide
  obtain ⟨-, stored⟩ := map_stores_clash_only_with_their_keys entangled made (.str "self") .nil
  obtain ⟨itself, -⟩ := map_stores_clash_only_with_their_keys entangled made (.map ⟨0⟩) .nil
  obtain ⟨holder, -⟩ := map_stores_clash_only_with_their_keys entangled made (.list ⟨0⟩) .nil
  obtain ⟨-, w', ran, -, stores⟩ := stored (by decide)
  exact ⟨made, ⟨w', ran, stores⟩, (itself (by decide)).2.1, (holder (by decide)).2.2⟩

/-- It is not so that every store into a map succeeds. -/
theorem map_stored_under_itself :
    (¬∀ (w : World) (r : MapRef) (key v : Value), w.heap.Made r → ∃ w', (storeIndex (.map r) key v).run w = .ok () w') ∧
    ¬∀ (w : World) (r : MapRef) (key v : Value), w.heap.Made r →
      ∃ w', (ListFn.setItem.perform [.map r, key, v]).run w = .ok (.map r) w' := by
  have made : entangled.heap.Made ⟨0⟩ := by
    rw [Heap.Made]
    decide
  have reached : entangled.heap.Reaches (.map ⟨0⟩) (.map ⟨0⟩) := by decide
  obtain ⟨stack, ran⟩ := Heap.write_of_reached reached
  have clashes : (storeEntry ⟨0⟩ (.map ⟨0⟩) .nil).run entangled = .error .crash entangled := by
    rw [storeEntry_run, ran]
  constructor
  · intro succeed
    obtain ⟨w', stored⟩ := succeed entangled ⟨0⟩ (.map ⟨0⟩) .nil made
    rw [storeIndex_map, clashes] at stored
    cases stored
  · intro succeed
    obtain ⟨w', stored⟩ := succeed entangled ⟨0⟩ (.map ⟨0⟩) .nil made
    rw [setItem_map_run, clashes] at stored
    cases stored

end Sketch
