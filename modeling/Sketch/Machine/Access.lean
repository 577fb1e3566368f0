import Sketch.Library.Call
import Sketch.Machine.State
import Sketch.Value.Member

/-!
Reading and writing variables, fields and items.
-/

namespace Sketch

namespace Machine

def param? (m : Machine) (name : String) : Option Value :=
  match m.frames with
  | f :: _ => f.params.get? name
  | [] => none

/-- The value of a name: a parameter, then a global, then a reading of the frame, then a constant. -/
def read (m : Machine) (name : String) : Except Cause Value :=
  match m.param? name with
  | some v => .ok v
  | none =>
    match m.globals.get? name with
    | some v => .ok v
    | none =>
      match Reading.ofName? name with
      | some r => .ok (r.value m.world.canvas)
      | none =>
        match Constant.ofName? name with
        | some c => .ok c.value
        | none => .error (.undefinedVariable name)

/-- Whether a name is a parameter or a global. -/
def isDefined (m : Machine) (name : String) : Bool :=
  (m.param? name).isSome || m.globals.contains name

/-- Writes a name: the parameter of the innermost call if it has one of that name, else a global. -/
def assign (m : Machine) (name : String) (v : Value) : Machine :=
  match m.frames with
  | f :: rest =>
    if f.params.contains name then { m with frames := { f with params := f.params.insert name v } :: rest }
    else { m with globals := m.globals.insert name v }
  | [] => { m with globals := m.globals.insert name v }

/-- The innermost call is at a statement. -/
def moveTo (m : Machine) (pos : Pos) : Machine :=
  match m.frames with
  | f :: rest => { m with frames := { f with pos } :: rest }
  | [] => m

end Machine

namespace Heap

/-- The field of a value. A map gives nil for a key that it lacks. -/
def field (h : Heap) (object : Value) (name : String) : Except Cause Value :=
  match object with
  | .map r => .ok (((h.map r).get? name).getD .nil)
  | .library l =>
    match (Library.ofName? l).bind (·.constant? name) with
    | some v => .ok v
    | none => .error (.noLibraryValue l name)
  | v =>
    match v.field? h name with
    | some x => .ok x
    | none => .error (.noField v.type name)

def item (h : Heap) (object key : Value) : Except Cause Value :=
  match object with
  | .list r =>
    let items := h.list r
    (checkedIndex key items.size).map fun i => items.getD i .nil
  | .map r => .ok (((h.map r).get? (h.display key)).getD .nil)
  | .str s =>
    let chars := s.toList
    (checkedIndex key chars.length).map fun i => .str (String.ofList ((chars.drop i).take 1))
  | v => .error (.cannotIndex v.type)

end Heap

def storeIndex (object key v : Value) : Action Unit :=
  match object with
  | .list r => storeItem r key v
  | .map r => storeEntry r key v
  | object => Action.fail (.cannotAssignInto object.type)

def storeField (object : Value) (name : String) (v : Value) : Action Unit :=
  match object with
  | .map r => World.onMap r (·.insert name v)
  | object => Action.fail (.cannotSetField name object.type)

def Machine.readPlace (m : Machine) : Place → Except Cause Value
  | .name name => m.read name
  | .index object key => m.world.heap.item object key
  | .field object name => m.world.heap.field object name

/-- The action behind a method: of the library that the receiver names, or of the receiver itself. -/
def methodAction (receiver : Value) (name : String) : Except Cause (List Value → Action Value) :=
  match receiver with
  | .library l =>
    match Library.ofName? l with
    | none => .error (.unknownLibrary l)
    | some lib =>
      match lib.actionOf? name with
      | some action => .ok action
      | none => .error (.undefinedFunction s!"{l}.{name}")
  | v =>
    match v.method? name with
    | some action => .ok action
    | none => .error (.noMethod v.type name)

end Sketch
