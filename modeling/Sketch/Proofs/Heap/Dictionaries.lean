import Mathlib.Data.List.Basic
import Sketch.Heap

/-!
Maps that remember the order of their keys. A store changes one entry in place or adds one at the end.
-/

namespace Sketch

namespace Dict

variable {α : Type}

/-- What was stored last under a key, of stores in order. -/
def latest? (stores : List (String × α)) (key : String) : Option α := (stores.reverse.find? (·.1 = key)).map (·.2)

/-- The keys of stores, in the order of the first store to each. -/
def firsts (stores : List (String × α)) : List String := (stores.map (·.1)).eraseDups

/-! ### One store -/

/-- A store changes the entry of its key, or adds one behind all others. -/
theorem insert_cases (d : Dict α) (key : String) (value : α) :
    (∃ before old after, d.entries = before ++ (key, old) :: after ∧ key ∉ before.map (·.1) ∧
      (d.insert key value).entries = before ++ (key, value) :: after) ∨
    (key ∉ d.keys ∧ (d.insert key value).entries = d.entries ++ [(key, value)]) := by
  obtain ⟨entries⟩ := d
  simp only [insert, keys]
  induction entries with
  | nil => exact .inr ⟨List.not_mem_nil, rfl⟩
  | cons entry rest ih =>
    obtain ⟨k, v⟩ := entry
    by_cases same : k = key
    · subst same
      exact .inl ⟨[], v, rest, rfl, List.not_mem_nil, by simp [insertEntry]⟩
    · rcases ih with ⟨before, old, after, whole, absent, stored⟩ | ⟨absent, stored⟩
      · left
        refine ⟨(k, v) :: before, old, after, by simp [whole], ?_, by simp [insertEntry, same, stored]⟩
        simpa [Ne.symm same] using absent
      · right
        refine ⟨?_, by simp [insertEntry, same, stored]⟩
        simpa [Ne.symm same] using absent

theorem keys_insert (d : Dict α) (key : String) (value : α) :
    (d.insert key value).keys = if key ∈ d.keys then d.keys else d.keys ++ [key] := by
  rcases insert_cases d key value with ⟨before, old, after, whole, -, stored⟩ | ⟨absent, stored⟩
  · have present : key ∈ d.keys := by simp [keys, whole]
    rw [if_pos present]
    simp [keys, whole, stored]
  · rw [if_neg absent]
    simp [keys, stored]

theorem nodup_insert {d : Dict α} (distinct : d.keys.Nodup) (key : String) (value : α) :
    (d.insert key value).keys.Nodup := by
  rw [keys_insert]
  split
  case isTrue => exact distinct
  case isFalse absent =>
    have apart : ∀ other ∈ d.keys, other ≠ key := by
      rintro other mem rfl
      exact absent mem
    simpa [List.nodup_append, distinct] using apart

/-! ### Any number of stores -/

theorem latest?_cons (store : String × α) (stores : List (String × α)) (key : String) :
    latest? (store :: stores) key = (latest? stores key).or (if store.1 = key then some store.2 else none) := by
  rw [latest?, List.reverse_cons, List.find?_append, Option.map_or, ← latest?]
  by_cases same : store.1 = key <;> simp [same]

theorem get?_insertAll (d : Dict α) (stores : List (String × α)) (key : String) :
    (d.insertAll stores).get? key = (latest? stores key).or (d.get? key) := by
  induction stores generalizing d with
  | nil => rfl
  | cons store stores ih =>
    have first : d.insertAll (store :: stores) = (d.insert store.1 store.2).insertAll stores := rfl
    rw [first, ih, get?_insert, latest?_cons, Option.or_assoc]
    by_cases same : store.1 = key <;> simp [same]

theorem keys_insertAll (d : Dict α) (stores : List (String × α)) :
    (d.insertAll stores).keys = d.keys ++ ((stores.map (·.1)).filter (· ∉ d.keys)).eraseDups := by
  induction stores generalizing d with
  | nil => simp [insertAll]
  | cons store stores ih =>
    have first : d.insertAll (store :: stores) = (d.insert store.1 store.2).insertAll stores := rfl
    rw [first, ih, keys_insert]
    by_cases present : store.1 ∈ d.keys
    · simp [present]
    · simp only [if_neg present, List.map_cons, List.append_assoc, List.cons_append, List.nil_append]
      rw [List.filter_cons_of_pos (by simpa using present), List.eraseDups_cons, List.filter_filter]
      congr 3
      apply List.filter_congr
      intro key _
      rw [Bool.eq_iff_iff]
      simp [and_comm]

theorem nodup_insertAll {d : Dict α} (distinct : d.keys.Nodup) (stores : List (String × α)) :
    (d.insertAll stores).keys.Nodup := by
  induction stores generalizing d with
  | nil => exact distinct
  | cons store stores ih => exact ih (nodup_insert distinct store.1 store.2)

/-- A map is what its stores make of it: keys in the order of their first store, and values stored last. -/
structure Recalls (d : Dict α) (stores : List (String × α)) : Prop where
  distinct : d.keys.Nodup
  order : d.keys = firsts stores
  latest : ∀ key, d.get? key = latest? stores key

theorem ofEntries_recalls (stores : List (String × α)) : (ofEntries stores).Recalls stores where
  distinct := nodup_insertAll (by simp [empty, keys]) stores
  order := by
    rw [ofEntries, keys_insertAll]
    simp [empty, keys, firsts]
  latest key := by
    rw [ofEntries, get?_insertAll]
    simp [empty, get?]

theorem ofEntries_append (stores more : List (String × α)) :
    ofEntries (stores ++ more) = (ofEntries stores).insertAll more := List.foldl_append

/-! ### Merging -/

theorem latest?_entries {d : Dict α} (distinct : d.keys.Nodup) (key : String) : latest? d.entries key = d.get? key := by
  obtain ⟨entries⟩ := d
  simp only [keys, get?] at *
  induction entries with
  | nil => rfl
  | cons entry rest ih =>
    rw [List.map_cons, List.nodup_cons] at distinct
    rw [latest?_cons, ih distinct.2, List.find?_cons]
    by_cases same : entry.1 = key
    · have absent : rest.find? (·.1 = key) = none := by
        simp only [List.find?_eq_none, decide_eq_true_eq]
        intro other mem isKey
        exact distinct.1 (List.mem_map.mpr ⟨other, mem, isKey.trans same.symm⟩)
      simp [same, absent]
    · simp [same]

theorem eraseDups_of_nodup {keys : List String} (distinct : keys.Nodup) : keys.eraseDups = keys := by
  induction keys with
  | nil => rfl
  | cons key keys ih =>
    rw [List.nodup_cons] at distinct
    have others : keys.filter (fun other => !other == key) = keys := by
      apply List.filter_eq_self.mpr
      intro other mem
      simp only [Bool.not_eq_eq_eq_not, Bool.not_true, beq_eq_false_iff_ne]
      rintro rfl
      exact distinct.1 mem
    rw [List.eraseDups_cons, others, ih distinct.2]

/-- In a merged map the new keys come behind the old ones, in the order of the other map. -/
theorem keys_merge (d : Dict α) {extra : Dict α} (distinct : extra.keys.Nodup) :
    (d.insertAll extra.entries).keys = d.keys ++ extra.keys.filter (· ∉ d.keys) := by
  rw [keys_insertAll, eraseDups_of_nodup]
  · rfl
  · exact distinct.filter _

/-- The values of the map that is merged in win. -/
theorem get?_merge (d : Dict α) {extra : Dict α} (distinct : extra.keys.Nodup) (key : String) :
    (d.insertAll extra.entries).get? key = (extra.get? key).or (d.get? key) := by
  rw [get?_insertAll, latest?_entries distinct]

end Dict

namespace Heap

variable (h : Heap)

/-- Whether a map was ever made. -/
def Made (r : MapRef) : Prop := r.index < h.maps.size

theorem map_modifyMap {r : MapRef} (made : h.Made r) (f : Dict Value → Dict Value) (q : MapRef) :
    (h.modifyMap r f).map q = if r = q then f (h.map r) else h.map q := by
  obtain ⟨i⟩ := r
  obtain ⟨j⟩ := q
  simp only [map, modifyMap, Array.getD_eq_getD_getElem?, Array.getElem?_modify, MapRef.mk.injEq]
  split
  case isTrue same =>
    subst same
    simp [show i < h.maps.size from made]
  case isFalse => rfl

theorem modifyMap_of_not_made {r : MapRef} (unmade : ¬h.Made r) (f : Dict Value → Dict Value) :
    (h.modifyMap r f).maps = h.maps := by
  apply Array.ext_getElem?
  intro i
  rw [modifyMap, Array.getElem?_modify]
  split
  case isTrue same =>
    have outside : h.maps[i]? = none := by simpa [Made, same] using unmade
    rw [outside]
    rfl
  case isFalse => rfl

theorem map_newMap (d : Dict Value) (q : MapRef) :
    (h.newMap d).2.map q = if q.index = h.maps.size then d else h.map q := by
  obtain ⟨j⟩ := q
  simp only [map, newMap, Array.getD_eq_getD_getElem?, Array.getElem?_push]
  split <;> rfl

end Heap

end Sketch
