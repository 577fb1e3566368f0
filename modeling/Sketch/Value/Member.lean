import Sketch.Library.Arguments
import Sketch.Text.Search

/-!
Fields and methods that lists and texts have of themselves.
-/

namespace Sketch

/-- Methods of lists. -/
inductive ListMethod where
  | push | pop | includes | indexOf | join
deriving DecidableEq, Repr, Inhabited

/-- Methods of texts. -/
inductive TextMethod where
  | toUpperCase | toLowerCase | trim | includes
deriving DecidableEq, Repr, Inhabited

namespace ListMethod

def name : ListMethod → String
  | .push => "push"
  | .pop => "pop"
  | .includes => "includes"
  | .indexOf => "indexOf"
  | .join => "join"

def ofName? (s : String) : Option ListMethod :=
  [push, pop, includes, indexOf, join].find? (·.name = s)

/-- Whether a method takes a number of arguments. -/
def takes : ListMethod → Nat → Bool
  | .push, n => 1 ≤ n
  | .pop, n => n = 0
  | .includes, n | .indexOf, n => n = 1
  | .join, n => n ≤ 1

/-- What a method does. A list shows its new length when items are added. -/
def perform (r : ListRef) (m : ListMethod) (values : List Value) : Action Value := do
  match m with
  | .push =>
    World.onList r (· ++ values.toArray)
    return .num (Float.ofNat (← World.items r).size)
  | .pop =>
    let last := (← World.items r).back?.getD .nil
    World.onList r (·.pop)
    return last
  | .includes => return .bool ((← World.items r).any (·.equal (values.headD .nil)))
  | .indexOf =>
    match (← World.items r).findIdx? (·.equal (values.headD .nil)) with
    | some i => return .num (Float.ofNat i)
    | none => return .num (-1.0)
  | .join =>
    let between ← match values with
      | [] => pure ","
      | v :: _ => World.text v
    return .str (between.intercalate (← (← World.items r).toList.mapM World.text))

end ListMethod

namespace TextMethod

def name : TextMethod → String
  | .toUpperCase => "toUpperCase"
  | .toLowerCase => "toLowerCase"
  | .trim => "trim"
  | .includes => "includes"

def ofName? (s : String) : Option TextMethod :=
  [toUpperCase, toLowerCase, trim, includes].find? (·.name = s)

/-- Whether a method takes a number of arguments. -/
def takes : TextMethod → Nat → Bool
  | .toUpperCase, n | .toLowerCase, n | .trim, n => n = 0
  | .includes, n => n = 1

def perform (s : String) (m : TextMethod) (values : List Value) : Action Value := do
  match m with
  | .toUpperCase => return .str (Text.upper s)
  | .toLowerCase => return .str (Text.lower s)
  | .trim => return .str (String.ofList (Text.trim s.toList))
  | .includes =>
    let piece ← World.text (values.headD .nil)
    return .bool (Text.occursIn piece.toList s.toList)

end TextMethod

namespace Value

def field? (h : Heap) (v : Value) (name : String) : Option Value :=
  match v with
  | .list r => if name = "length" then some (.num (Float.ofNat (h.list r).size)) else none
  | .str s => if name = "length" then some (.num (Float.ofNat s.length)) else none
  | _ => none

/-- Runs a method that takes so many arguments. -/
def performCounted (takes : Nat → Bool) (name : String) (perform : List Value → Action Value)
    (values : List Value) : Action Value :=
  if takes values.length then perform values
  else Action.fail (.methodArguments name values.length)

def method? (v : Value) (name : String) : Option (List Value → Action Value) :=
  match v with
  | .list r => (ListMethod.ofName? name).map fun m => performCounted m.takes m.name (m.perform r)
  | .str s => (TextMethod.ofName? name).map fun m => performCounted m.takes m.name (m.perform s)
  | _ => none

end Value

end Sketch
