import Sketch.Builtin
import Sketch.Library.Arguments

/-!
Functions on lists and maps. Both are shared, so that a change shows wherever the list or map is held.
-/

namespace Sketch

/-- The place that an index names in a list of a given length. -/
def checkedIndex (index : Value) (length : Nat) : Except Cause Nat :=
  match index with
  | .num x =>
    match Number.wholeMagnitude? x with
    | none => .error (.indexFraction x)
    | some i => if x < 0.0 ∨ length ≤ i then .error (.outOfBounds x length) else .ok i
  | v => .error (.indexType v.type)

/-- Adds an item to a list, or all entries of a map to a map. -/
def appendTo (target item : Value) : Action Value := do
  match target, item with
  | .list r, v => World.onList r (·.push v)
  | .map r, .map q =>
    let extra ← World.entries q
    World.onMap r (·.insertAll extra.entries)
  | .map _, _ => Action.fail .appendToMap
  | _, _ => Action.fail .appendTarget
  return target

/-- Number of items, entries or characters. -/
def lengthOf : Value → Action Nat
  | .list r => do return (← World.items r).size
  | .map r => do return (← World.entries r).size
  | .str s => return s.length
  | v => Action.fail (.lengthOf v.type)

/-- The item at an index, or the value under a key, nil without one. -/
def itemOf (target key : Value) : Action Value := do
  match target with
  | .list r =>
    let items ← World.items r
    match checkedIndex key items.size with
    | .ok i => return items.getD i .nil
    | .error e => Action.fail e
  | .map r => return ((← World.entries r).get? (← World.text key)).getD .nil
  | v => Action.fail (.itemOf v.type)

/-- Stores an item at an index of a list, if the index is there. -/
def storeItem (r : ListRef) (index v : Value) : Action Unit := do
  let items ← World.items r
  match checkedIndex index items.size with
  | .ok i => World.onList r (·.setIfInBounds i v)
  | .error e => Action.fail e

/-- Stores a value in a map under the text of the key. A key whose text would show the map is a crash. -/
def storeEntry (r : MapRef) (key v : Value) : Action Unit := do
  let h := (← get).heap
  if h.shows (.map r) key then throw .crash
  else World.onMap r (·.insert (h.display key) v)

/-- Stores an item in a list or map. -/
def setItemOf (target key v : Value) : Action Value := do
  match target with
  | .list r => storeItem r key v
  | .map r => storeEntry r key v
  | _ => Action.fail .setItemTarget
  return target

def ListFn.perform (f : ListFn) (values : List Value) : Action Value := do
  let a : Arguments := ⟨f.name, values⟩
  match f with
  | .createList => World.newList values.toArray
  | .append =>
    a.expect 2
    appendTo (a.get 0) (a.get 1)
  | .getLength =>
    a.expect 1
    return .num (Float.ofNat (← lengthOf (a.get 0)))
  | .getItem =>
    a.expect 2
    itemOf (a.get 0) (a.get 1)
  | .setItem =>
    a.expect 3
    setItemOf (a.get 0) (a.get 1) (a.get 2)

end Sketch
