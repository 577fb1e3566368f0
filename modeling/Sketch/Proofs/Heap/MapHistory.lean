import Sketch.Proofs.Heap.Stores

/-!
Maps and the stores that made them. Each map is at any time what the stores into it make of an empty one, whoever else
holds it and whatever else was done in between.
-/

namespace Sketch

/-- A store into a map. -/
structure MapStore where
  map : MapRef
  key : String
  value : Value

/-- Entries as stores into one map. -/
def storesInto (r : MapRef) (entries : List (String × Value)) : List MapStore :=
  entries.map fun entry => ⟨r, entry.1, entry.2⟩

/-- The stores into one map, as entries. -/
def storesTo (log : List MapStore) (r : MapRef) : List (String × Value) :=
  (log.filter (·.map = r)).map fun store => (store.key, store.value)

theorem storesTo_append (log more : List MapStore) (r : MapRef) :
    storesTo (log ++ more) r = storesTo log r ++ storesTo more r := by
  simp [storesTo]

theorem storesTo_storesInto (r q : MapRef) (entries : List (String × Value)) :
    storesTo (storesInto r entries) q = if r = q then entries else [] := by
  by_cases same : r = q <;> simp [storesTo, storesInto, List.filter_map, Function.comp_def, same]

theorem storesTo_eq_nil {log : List MapStore} {r : MapRef} (none : ∀ store ∈ log, store.map ≠ r) :
    storesTo log r = [] := by
  have nothing : log.filter (·.map = r) = [] := by
    rw [List.filter_eq_nil_iff]
    intro store mem
    simpa using none store mem
  simp [storesTo, nothing]

/-! ### What is done to maps -/

/-- What a sketch does to maps: it writes one down, stores a field or an item, or adds all entries of a map. -/
inductive MapOp where
  | literal (entries : List (String × Value))
  | field (r : MapRef) (name : String) (v : Value)
  | index (r : MapRef) (key v : Value)
  | setItem (r : MapRef) (key v : Value)
  | append (r q : MapRef)

namespace MapOp

/-- The world afterwards, whether it succeeds or fails. -/
def after (w : World) : MapOp → World
  | .literal entries => (World.newMap (.ofEntries entries)).after w
  | .field r name v => (storeField (.map r) name v).after w
  | .index r key v => (storeIndex (.map r) key v).after w
  | .setItem r key v => (ListFn.setItem.perform [.map r, key, v]).after w
  | .append r q => (ListFn.append.perform [.map r, .map q]).after w

/-- The stores of entries into a map. One that was never made takes nothing. -/
def into (h : Heap) (r : MapRef) (entries : List (String × Value)) : List MapStore :=
  if r.index < h.maps.size then storesInto r entries else []

/-- The entries that are stored, and where. A store that clashes with its key stores nothing. -/
def stores (h : Heap) : MapOp → List MapStore
  | .literal entries => storesInto ⟨h.maps.size⟩ entries
  | .field r name v => into h r [(name, v)]
  | .index r key v | .setItem r key v =>
    if h.Reaches key (.map r) then [] else into h r [(h.display key, v)]
  | .append r q => into h r (h.map q).entries

end MapOp

/-- What becomes of the maps of a heap by some stores. -/
inductive Heap.Changes (h : Heap) : List MapStore → Array (Dict Value) → Prop where
  | stays : h.Changes [] h.maps
  | makes (entries : List (String × Value)) :
      h.Changes (storesInto ⟨h.maps.size⟩ entries) (h.maps.push (.ofEntries entries))
  | stores {r : MapRef} (made : h.Made r) (entries : List (String × Value)) :
      h.Changes (storesInto r entries) (h.maps.modify r.index (·.insertAll entries))

theorem MapOp.changes_into (h : Heap) (r : MapRef) (entries : List (String × Value)) :
    h.Changes (into h r entries) (h.modifyMap r (·.insertAll entries)).maps := by
  rw [into]
  split
  case isTrue made => exact .stores made entries
  case isFalse unmade =>
    rw [Heap.modifyMap_of_not_made h unmade]
    exact .stays

theorem storeEntry_changes (w : World) (r : MapRef) (key v : Value) :
    w.heap.Changes (MapOp.stores w.heap (.index r key v)) ((storeEntry r key v).after w).heap.maps := by
  rw [Action.after, storeEntry_run, MapOp.stores]
  split
  case isTrue reached =>
    obtain ⟨stack, ran⟩ := Heap.write_of_reached reached
    rw [ran]
    exact .stays
  case isFalse unreached =>
    rw [Heap.write_of_unreached unreached]
    exact MapOp.changes_into w.heap r [(w.heap.display key, v)]

theorem setItem_map_after (w : World) (r : MapRef) (key v : Value) :
    (ListFn.setItem.perform [.map r, key, v]).after w = (storeEntry r key v).after w := by
  rw [Action.after, setItem_map_run, Action.after]
  cases (storeEntry r key v).run w <;> rfl

/-- Whatever is done to maps is to make one or to store entries into one. -/
theorem MapOp.changes (op : MapOp) (w : World) : w.heap.Changes (op.stores w.heap) (op.after w).heap.maps := by
  cases op with
  | literal entries => exact .makes entries
  | field r name v => exact changes_into w.heap r [(name, v)]
  | index r key v => exact storeEntry_changes w r key v
  | setItem r key v =>
    rw [after, setItem_map_after]
    exact storeEntry_changes w r key v
  | append r q => exact changes_into w.heap r (w.heap.map q).entries

/-! ### Histories -/

/-- A heap is what a log of stores made of its maps, and nothing was stored elsewhere. -/
structure Heap.Recalls (h : Heap) (log : List MapStore) : Prop where
  made : ∀ store ∈ log, h.Made store.map
  maps : ∀ r, h.Made r → h.map r = .ofEntries (storesTo log r)

theorem Heap.map_congr {h h' : Heap} (same : h'.maps = h.maps) (r : MapRef) : h'.map r = h.map r := by
  rw [map, map, same]

/-- What is stored is recalled from then on. -/
theorem Heap.Recalls.changed {h h' : Heap} {log stores : List MapStore} (recalls : h.Recalls log)
    (changes : h.Changes stores h'.maps) : h'.Recalls (log ++ stores) := by
  generalize maps : h'.maps = after at changes
  cases changes with
  | stays =>
    rw [List.append_nil]
    constructor
    · intro store mem
      rw [Made, maps]
      exact recalls.made store mem
    · intro r made
      rw [Made, maps] at made
      rw [map_congr maps]
      exact recalls.maps r made
  | makes entries =>
    constructor
    · intro store mem
      rw [Made, maps, Array.size_push]
      rcases List.mem_append.mp mem with earlier | now
      · exact Nat.lt_succ_of_lt (recalls.made store earlier)
      · obtain ⟨entry, -, rfl⟩ := List.mem_map.mp now
        exact Nat.lt_succ_self _
    · intro r made
      have found : h'.map r = (h.newMap (.ofEntries entries)).2.map r := map_congr maps r
      rw [Made, maps, Array.size_push] at made
      rw [found, map_newMap, storesTo_append, storesTo_storesInto]
      split
      case isTrue new =>
        -- Nothing can have been stored into the map before it was made.
        obtain ⟨i⟩ := r
        obtain rfl : i = h.maps.size := new
        have nothing : storesTo log ⟨h.maps.size⟩ = [] := by
          apply storesTo_eq_nil
          intro store mem same
          exact Nat.lt_irrefl h.maps.size (by simpa [Made, same] using recalls.made store mem)
        rw [nothing, if_pos rfl, List.nil_append]
      case isFalse old =>
        have other : (⟨h.maps.size⟩ : MapRef) ≠ r := by
          rintro rfl
          exact old rfl
        rw [if_neg other, List.append_nil]
        exact recalls.maps r (by rw [Made]; omega)
  | @stores r made entries =>
    have size : h'.maps.size = h.maps.size := by rw [maps, Array.size_modify]
    constructor
    · intro store mem
      rw [Made, size]
      rcases List.mem_append.mp mem with earlier | now
      · exact recalls.made store earlier
      · obtain ⟨entry, -, rfl⟩ := List.mem_map.mp now
        exact made
    · intro q there
      rw [Made, size] at there
      have found : h'.map q = (h.modifyMap r (·.insertAll entries)).map q := map_congr maps q
      rw [found, map_modifyMap h made, storesTo_append, storesTo_storesInto, Dict.ofEntries_append]
      split
      case isTrue same => rw [← same, recalls.maps r made]
      case isFalse => exact recalls.maps q there

/-- How a world came about, with all stores in order. Anything else may happen between them. -/
inductive World.Came : List MapStore → World → Prop where
  | begins {w : World} (bare : w.heap.maps = #[]) : Came [] w
  | does {log : List MapStore} {w : World} (so : Came log w) (op : MapOp) :
      Came (log ++ op.stores w.heap) (op.after w)
  | passes {log : List MapStore} {w w' : World} (so : Came log w) (same : w'.heap.maps = w.heap.maps) : Came log w'

/-- The world after a sequence of things done to maps. -/
def World.afterAll (w : World) : List MapOp → World
  | [] => w
  | op :: ops => (op.after w).afterAll ops

/-- The stores of a sequence, in order. -/
def World.storesOfAll (w : World) : List MapOp → List MapStore
  | [] => []
  | op :: ops => op.stores w.heap ++ (op.after w).storesOfAll ops

theorem World.Came.doesAll {log : List MapStore} {w : World} (came : w.Came log) (ops : List MapOp) :
    (w.afterAll ops).Came (log ++ w.storesOfAll ops) := by
  induction ops generalizing log w with
  | nil => simpa [afterAll, storesOfAll] using came
  | cons op ops ih =>
    rw [afterAll, storesOfAll, ← List.append_assoc]
    exact ih (came.does op)

theorem World.Came.recalls {log : List MapStore} {w : World} (came : w.Came log) : w.heap.Recalls log := by
  induction came with
  | begins bare =>
    constructor
    · intro store mem
      cases mem
    · intro r made
      simp [Heap.Made, bare] at made
  | @does log w so op ih => exact ih.changed (op.changes w)
  | @passes log w w' so same ih =>
    have changes : w.heap.Changes [] w'.heap.maps := by
      rw [same]
      exact .stays
    simpa using ih.changed changes

/-! ### What a map is after a history -/

/-- A map is in a world what a log of stores makes of it, whichever way it is read. -/
structure World.TellsMap (w : World) (log : List MapStore) (r : MapRef) : Prop where
  distinct : (w.heap.map r).keys.Nodup
  order : (w.heap.map r).keys = Dict.firsts (storesTo log r)
  field : ∀ name, w.heap.field (.map r) name = .ok ((Dict.latest? (storesTo log r) name).getD .nil)
  item : ∀ key, w.heap.item (.map r) key = .ok ((Dict.latest? (storesTo log r) (w.heap.display key)).getD .nil)
  getItem : ∀ key, (ListFn.getItem.perform [.map r, key]).run w =
    .ok ((Dict.latest? (storesTo log r) (w.heap.display key)).getD .nil) w

/-- A world after a map was merged into a map: new keys come last, merged values win, and all else is as it was. -/
structure World.Merges (w : World) (r q : MapRef) (w' : World) : Prop where
  canvas : w'.canvas = w.canvas
  lists : w'.heap.lists = w.heap.lists
  made : w'.heap.maps.size = w.heap.maps.size
  others : ∀ p, r ≠ p → w'.heap.map p = w.heap.map p
  keys : (w'.heap.map r).keys = (w.heap.map r).keys ++ (w.heap.map q).keys.filter (· ∉ (w.heap.map r).keys)
  values : ∀ key, (w'.heap.map r).get? key = ((w.heap.map q).get? key).or ((w.heap.map r).get? key)

section Told

variable {log : List MapStore} {w : World} {r q : MapRef}

theorem World.Came.tells (came : w.Came log) (made : w.heap.Made r) : w.TellsMap log r := by
  have recalls : (w.heap.map r).Recalls (storesTo log r) := by
    rw [came.recalls.maps r made]
    exact Dict.ofEntries_recalls _
  constructor
  · exact recalls.distinct
  · exact recalls.order
  · intro name
    rw [Heap.field, recalls.latest]
  · intro key
    rw [Heap.item, recalls.latest]
  · intro key
    rw [← recalls.latest]
    rfl

theorem append_merges (made : w.heap.Made r) (distinct : (w.heap.map q).keys.Nodup) :
    ∃ w', (ListFn.append.perform [.map r, .map q]).run w = .ok (.map r) w' ∧ w.Merges r q w' := by
  refine ⟨{ w with heap := w.heap.modifyMap r (·.insertAll (w.heap.map q).entries) }, rfl, ?_⟩
  constructor
  case canvas => rfl
  case lists => rfl
  case made => exact Array.size_modify
  case others =>
    intro p other
    rw [Heap.map_modifyMap w.heap made, if_neg other]
  case keys =>
    rw [Heap.map_modifyMap w.heap made, if_pos rfl]
    exact Dict.keys_merge _ distinct
  case values =>
    intro key
    rw [Heap.map_modifyMap w.heap made, if_pos rfl]
    exact Dict.get?_merge _ distinct key

end Told

end Sketch
