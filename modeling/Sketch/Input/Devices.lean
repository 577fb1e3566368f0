import Sketch.Text.Blank
import Sketch.Text.LetterCase
import Sketch.Transform

/-!
Mouse and keyboard as events arrive. What is held stays until it is released; presses wait until a frame
takes them.
-/

namespace Sketch

/-- The buttons of a mouse. -/
inductive MouseButton where
  | left | middle | right
deriving DecidableEq, Repr, Inhabited

namespace MouseButton

/-- The number of a button in a sketch. -/
def code : MouseButton → Nat
  | .left => 0
  | .middle => 1
  | .right => 2

def ofCode? (x : Float) : Option MouseButton :=
  if x == 0.0 then some .left
  else if x == 1.0 then some .middle
  else if x == 2.0 then some .right
  else none

/-- The button of a name, whatever its case and the blanks around it. -/
def ofName? (name : String) : Option MouseButton :=
  let cs := (Text.trim name.toList).map Char.toLower
  if cs = "left".toList then some .left
  else if cs = "middle".toList then some .middle
  else if cs = "right".toList then some .right
  else none

end MouseButton

/-- The form in which keys are compared. A key that is only white space is the space. -/
def normalizeKey (key : String) : String :=
  let cs := Text.trim key.toList
  if cs = [] ∧ key ≠ "" then " " else Text.lower (String.ofList cs)

/-- A held key: its normal form, and the form in which it was reported. -/
structure HeldKey where
  key : String
  shown : String
deriving DecidableEq, Repr, Inhabited

/-- What happens to mouse and keyboard. -/
inductive DeviceEvent where
  | mouseMoved (x y : Float)
  | mouseDown (b : MouseButton)
  | mouseUp (b : MouseButton)
  | keyDown (key : String)
  | keyUp (key : String)
deriving DecidableEq, Repr, Inhabited

/-- State of mouse and keyboard. -/
structure Devices where
  mouse : Point
  held : List MouseButton
  lastButton : Option MouseButton
  /-- Presses of buttons that no frame has taken, in order. -/
  clicks : List MouseButton
  /-- Held keys in the order of their presses. -/
  keys : List HeldKey
  /-- Normal forms of keys whose press no frame has taken. -/
  keyClicks : List String
  /-- The latest of those presses, as reported. -/
  clickedKey : Option String
deriving DecidableEq, Repr, Inhabited

namespace Devices

/-- Nothing is held or pressed. -/
def initial : Devices := ⟨(0.0, 0.0), [], none, [], [], [], none⟩

def mouseMoved (d : Devices) (x y : Float) : Devices := { d with mouse := (x, y) }

/-- A button goes down. It is a press only if the button was not held. -/
def mouseDown (d : Devices) (b : MouseButton) : Devices :=
  if b ∈ d.held then { d with lastButton := some b }
  else { d with held := d.held ++ [b], clicks := d.clicks ++ [b], lastButton := some b }

/-- A button goes up. With the last one the latest button is forgotten. -/
def mouseUp (d : Devices) (b : MouseButton) : Devices :=
  let held := d.held.filter (· ≠ b)
  { d with held, lastButton := if held = [] then none else d.lastButton }

/-- A key goes down. A repeated report is no press, and a key without a name is ignored. -/
def keyDown (d : Devices) (key : String) : Devices :=
  let k := normalizeKey key
  if k = "" ∨ d.keys.any (·.key = k) then d
  else
    { d with
      keyClicks := if k ∈ d.keyClicks then d.keyClicks else d.keyClicks ++ [k]
      clickedKey := some key
      keys := d.keys ++ [⟨k, key⟩] }

def keyUp (d : Devices) (key : String) : Devices :=
  { d with keys := d.keys.filter (·.key ≠ normalizeKey key) }

def receive (d : Devices) : DeviceEvent → Devices
  | .mouseMoved x y => d.mouseMoved x y
  | .mouseDown b => d.mouseDown b
  | .mouseUp b => d.mouseUp b
  | .keyDown key => d.keyDown key
  | .keyUp key => d.keyUp key

/-- Forgets presses that no frame has taken, and keeps what is held. -/
def discardClicks (d : Devices) : Devices := { d with clicks := [], keyClicks := [], clickedKey := none }

end Devices

end Sketch
