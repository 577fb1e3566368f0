import Sketch.Dict
import Sketch.Number.Spelling
import Sketch.Text.Quoted
import Sketch.Value

/-!
The heap: contents of the lists and maps of a run, and the text of a value. A list or map that contains
itself is shown in short form where it would come up inside itself.
-/

namespace Sketch

/-- Contents of all lists and maps that were ever made. -/
structure Heap where
  lists : Array (Array Value)
  maps : Array (Dict Value)
deriving Inhabited

/-- A value with contents of its own. -/
inductive Container where
  | list (r : ListRef)
  | map (r : MapRef)
deriving DecidableEq, Repr, Inhabited

namespace Heap

def empty : Heap := ⟨#[], #[]⟩

def list (h : Heap) (r : ListRef) : Array Value := h.lists.getD r.index #[]

def map (h : Heap) (r : MapRef) : Dict Value := h.maps.getD r.index .empty

def newList (h : Heap) (items : Array Value) : Value × Heap :=
  (.list ⟨h.lists.size⟩, { h with lists := h.lists.push items })

def newMap (h : Heap) (entries : Dict Value) : Value × Heap :=
  (.map ⟨h.maps.size⟩, { h with maps := h.maps.push entries })

def modifyList (h : Heap) (r : ListRef) (f : Array Value → Array Value) : Heap :=
  { h with lists := h.lists.modify r.index f }

def modifyMap (h : Heap) (r : MapRef) (f : Dict Value → Dict Value) : Heap :=
  { h with maps := h.maps.modify r.index f }

def size (h : Heap) : Nat := h.lists.size + h.maps.size

/-- How many containers can be open one inside the other: all that are there, and one that never was made. -/
def room (h : Heap) : Nat := h.size + 1

/-- The text of a value inside the containers `opened`, when `depth` more can be opened. Texts inside are quoted. -/
def render (h : Heap) : (depth : Nat) → (opened : List Container) → Value → String
  | _, _, .nil => "null"
  | _, _, .num x => Number.Spelling.sketch.write x
  | _, _, .bool b => if b then "true" else "false"
  | _, _, .str s => s
  | _, _, .library name => s!"<namespace {name}>"
  | 0, _, .list _ => "[...]"
  | 0, _, .map _ => "\x7b...\x7d"
  | depth + 1, opened, .list r =>
    if opened.contains (.list r) then "[...]"
    else
      let items := (h.list r).toList.map fun v =>
        match v with
        | .str s => Text.quoted s
        | v => h.render depth (.list r :: opened) v
      "[" ++ ", ".intercalate items ++ "]"
  | depth + 1, opened, .map r =>
    if opened.contains (.map r) then "\x7b...\x7d"
    else
      let entries := (h.map r).entries.map fun (k, v) =>
        k ++ ": " ++
          match v with
          | .str s => Text.quoted s
          | v => h.render depth (.map r :: opened) v
      "\x7b" ++ ", ".intercalate entries ++ "\x7d"

def display (h : Heap) (v : Value) : String := h.render h.room [] v

/-- Whether the text of a value shows the contents of a container, as in `render`. -/
def showsWithin (h : Heap) (target : Container) :
    (depth : Nat) → (opened : List Container) → Value → Bool
  | depth + 1, opened, .list r =>
    !opened.contains (.list r) &&
      (target == .list r || (h.list r).toList.any (h.showsWithin target depth (.list r :: opened)))
  | depth + 1, opened, .map r =>
    !opened.contains (.map r) &&
      (target == .map r || (h.map r).entries.any fun (_, v) =>
        h.showsWithin target depth (.map r :: opened) v)
  | _, _, _ => false

/-- Whether the text of a value shows the contents of a container. -/
def shows (h : Heap) (target : Container) (v : Value) : Bool := h.showsWithin target h.room [] v

end Heap

end Sketch
