import Sketch.Canvas

/-!
Arguments of library calls. A missing argument is nil.
-/

namespace Sketch

namespace World

def onCanvas (f : Canvas → Canvas) : Action Unit := modify fun w => { w with canvas := f w.canvas }

def getCanvas : Action Canvas := do return (← get).canvas

def text (v : Value) : Action String := do return (← get).heap.display v

def newList (items : Array Value) : Action Value :=
  modifyGet fun w =>
    let (v, heap) := w.heap.newList items
    (v, { w with heap })

def newMap (entries : Dict Value) : Action Value :=
  modifyGet fun w =>
    let (v, heap) := w.heap.newMap entries
    (v, { w with heap })

def items (r : ListRef) : Action (Array Value) := do return (← get).heap.list r

def entries (r : MapRef) : Action (Dict Value) := do return (← get).heap.map r

def onList (r : ListRef) (f : Array Value → Array Value) : Action Unit :=
  modify fun w => { w with heap := w.heap.modifyList r f }

def onMap (r : MapRef) (f : Dict Value → Dict Value) : Action Unit :=
  modify fun w => { w with heap := w.heap.modifyMap r f }

end World

/-- The arguments of a call of the function `name`. -/
structure Arguments where
  name : String
  values : List Value

namespace Arguments

def get (a : Arguments) (i : Nat) : Value := a.values.getD i .nil

def count (a : Arguments) : Nat := a.values.length

/-- Fails unless there are at least `least` and at most `most` arguments. -/
def expectRange (a : Arguments) (least most : Nat) : Action Unit :=
  if least ≤ a.count ∧ a.count ≤ most then pure ()
  else Action.fail (.argumentCount a.name least most a.count)

/-- Fails unless there are exactly `n` arguments. -/
def expect (a : Arguments) (n : Nat) : Action Unit := a.expectRange n n

/-- A value that has to be a number. -/
def asNumber (a : Arguments) : Value → Action Float
  | .num x => pure x
  | v => Action.fail (.expectsNumber a.name v.type)

/-- An argument that has to be a number. -/
def number (a : Arguments) (i : Nat) : Action Float := a.asNumber (a.get i)

/-- An argument that can be left out or nil. -/
def number? (a : Arguments) (i : Nat) : Action (Option Float) :=
  match a.get i with
  | .nil => pure none
  | v => do return some (← a.asNumber v)

/-- Two numbers, from argument `i` on. -/
def point (a : Arguments) (i : Nat) : Action Point := do
  let x ← a.number i
  let y ← a.number (i + 1)
  return (x, y)

def text (a : Arguments) (i : Nat) : Action String := World.text (a.get i)

/-- A colour from one (gray), two (gray and alpha), three or four numbers. -/
def color (a : Arguments) : Action Color := do
  a.expectRange 1 4
  let numbers ← a.values.mapM a.asNumber
  match numbers with
  | [v, alpha] => return .rgba v v v alpha
  | numbers => return (Color.ofNumbers? numbers).getD .black

end Arguments

end Sketch
