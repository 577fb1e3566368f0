/-!
Maps from texts that remember the order in which keys were first stored.
-/

namespace Sketch

/-- A finite map with its entries in the order of their first store. -/
structure Dict (α : Type) where
  entries : List (String × α)
deriving Repr, Inhabited

namespace Dict

variable {α : Type}

def empty : Dict α := ⟨[]⟩

def get? (d : Dict α) (key : String) : Option α := (d.entries.find? (·.1 = key)).map (·.2)

def contains (d : Dict α) (key : String) : Bool := (d.get? key).isSome

def size (d : Dict α) : Nat := d.entries.length

/-- The keys, in the order of their first store. -/
def keys (d : Dict α) : List String := d.entries.map (·.1)

/-- Entries with a value stored under a key: in place when the key is there, at the end otherwise. -/
def insertEntry (key : String) (value : α) : List (String × α) → List (String × α)
  | [] => [(key, value)]
  | (k, v) :: rest =>
    if k = key then (k, value) :: rest else (k, v) :: insertEntry key value rest

/-- Stores a value under a key. A key that is there keeps its place. -/
def insert (d : Dict α) (key : String) (value : α) : Dict α := ⟨insertEntry key value d.entries⟩

/-- Stores entries one after the other. -/
def insertAll (d : Dict α) (entries : List (String × α)) : Dict α :=
  entries.foldl (fun d (k, v) => d.insert k v) d

/-- The map of entries stored one after the other. -/
def ofEntries (entries : List (String × α)) : Dict α := empty.insertAll entries

def mapValues {β : Type} (f : α → β) (d : Dict α) : Dict β := ⟨d.entries.map fun (k, v) => (k, f v)⟩

theorem find?_insertEntry (key : String) (value : α) (entries : List (String × α)) (other : String) :
    (insertEntry key value entries).find? (·.1 = other) =
      if key = other then some (key, value) else entries.find? (·.1 = other) := by
  induction entries with
  | nil => by_cases same : key = other <;> simp [insertEntry, same]
  | cons entry rest ih =>
    obtain ⟨k, v⟩ := entry
    by_cases found : k = key
    · subst found
      by_cases same : k = other <;> simp [insertEntry, same]
    · by_cases same : k = other
      · subst same
        simp [insertEntry, found, Ne.symm found]
      · simp [insertEntry, found, same, ih]

/-- Under a key there is what was stored last. -/
theorem get?_insert (d : Dict α) (key : String) (value : α) (other : String) :
    (d.insert key value).get? other = if key = other then some value else d.get? other := by
  rw [get?, insert, find?_insertEntry]
  split <;> rfl

theorem get?_mapValues {β : Type} (f : α → β) (d : Dict α) (key : String) :
    (d.mapValues f).get? key = (d.get? key).map f := by
  simp only [get?, mapValues, List.find?_map, Option.map_map]
  rfl

end Dict

end Sketch
