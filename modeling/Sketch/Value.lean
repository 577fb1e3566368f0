/-!
Values of a running sketch. Lists and maps are held by reference, so that all who hold one see its changes;
their contents are in the heap.
-/

namespace Sketch

/-- Identity of a list. -/
structure ListRef where
  index : Nat
deriving DecidableEq, Repr, Inhabited

/-- Identity of a map. -/
structure MapRef where
  index : Nat
deriving DecidableEq, Repr, Inhabited

/-- What a variable can hold. -/
inductive Value where
  | nil
  | num (x : Float)
  | bool (b : Bool)
  | str (s : String)
  | list (r : ListRef)
  | map (r : MapRef)
  | library (name : String)
deriving DecidableEq, Repr, Inhabited

/-- The kinds of values. -/
inductive ValueType where
  | nil | number | bool | string | list | map | library
deriving DecidableEq, Repr, Inhabited

/-- How messages name a kind of value. -/
def ValueType.name : ValueType → String
  | .nil => "nil"
  | .number => "number"
  | .bool => "bool"
  | .string => "string"
  | .list => "list"
  | .map => "map"
  | .library => "namespace"

namespace Value

def type : Value → ValueType
  | .nil => .nil
  | .num _ => .number
  | .bool _ => .bool
  | .str _ => .string
  | .list _ => .list
  | .map _ => .map
  | .library _ => .library

/-- Whether a value counts as true: nil, false, zero, NaN and the empty text do not. -/
def truthy : Value → Bool
  | .nil => false
  | .bool b => b
  | .num x => !(x == 0.0) && !x.isNaN
  | .str s => !s.isEmpty
  | .list _ | .map _ | .library _ => true

/-- Equality as a sketch sees it: numbers as numbers, lists and maps by identity. -/
def equal : Value → Value → Bool
  | .nil, .nil => true
  | .num x, .num y => x == y
  | .bool a, .bool b => a == b
  | .str s, .str t => s == t
  | .list r, .list q => r == q
  | .map r, .map q => r == q
  | .library m, .library n => m == n
  | _, _ => false

end Value

end Sketch
