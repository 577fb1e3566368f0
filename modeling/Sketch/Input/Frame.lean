import Sketch.Dict
import Sketch.Input.Devices

/-!
What a sketch sees of its devices during one frame, and the buttons it draws itself.
-/

namespace Sketch

/-- The devices as they are during one frame. -/
structure FrameInput where
  mouse : Point
  /-- The pointer of the frame before. -/
  lastMouse : Point
  pressed : Bool
  button : Option MouseButton
  /-- Buttons pressed since the frame before, in order. -/
  clicks : List MouseButton
  keysDown : List String
  /-- The key pressed last among those held, as reported. -/
  key : Option String
  keyClicks : List String
  clickedKey : Option String
deriving DecidableEq, Repr, Inhabited

namespace FrameInput

/-- A run starts with the pointer where it is. -/
def startingAt (mouse : Point) : FrameInput := ⟨mouse, mouse, false, none, [], [], none, [], none⟩

/-- The frame before anything happened. -/
def initial : FrameInput := startingAt (0.0, 0.0)

/-- After a frame the pointer moves on and the presses are gone. -/
def advance (f : FrameInput) (mouse : Point) : FrameInput :=
  { f with mouse, lastMouse := f.mouse, clicks := [], keyClicks := [], clickedKey := none }

def isKeyDown (f : FrameInput) (key : String) : Bool := f.keysDown.contains (normalizeKey key)

/-- Whether a key was pressed since the frame before. -/
def wasKeyClicked (f : FrameInput) (key : String) : Bool := f.keyClicks.contains (normalizeKey key)

/-- Whether any button was pressed since the frame before. -/
def anyClick (f : FrameInput) : Bool := !f.clicks.isEmpty

/-- Whether a button was pressed since the frame before. -/
def wasClicked (f : FrameInput) (b : MouseButton) : Bool := f.clicks.contains b

end FrameInput

/-- A frame takes what is held and the presses so far; the latter are then gone. -/
def Devices.snapshot (d : Devices) (f : FrameInput) : FrameInput × Devices :=
  ({ f with
      mouse := d.mouse
      pressed := !d.held.isEmpty
      button := d.lastButton
      clicks := d.clicks
      keysDown := d.keys.map (·.key)
      key := d.keys.getLast?.map (·.shown)
      keyClicks := d.keyClicks
      clickedKey := d.clickedKey },
    d.discardClicks)

/-- Buttons that a sketch draws itself, by name, and whether they were hit in this frame. -/
abbrev Widgets := Dict Bool

namespace Widgets

/-- A new frame: nothing was hit. -/
def clearClicks (w : Widgets) : Widgets := w.mapValues fun _ => false

def clicked (w : Widgets) (id : String) : Bool := (w.get? id).getD false

/-- Notes whether a button was hit. One hit counts for the whole frame. -/
def record (w : Widgets) (id : String) (hit : Bool) : Bool × Widgets :=
  let flag := w.clicked id || hit
  (flag, w.insert id flag)

end Widgets

/-- Whether a point lies in a rectangle, its edges included. -/
def hitTest (p : Point) (x y w h : Float) : Bool :=
  x ≤ p.1 && p.1 ≤ x + w && y ≤ p.2 && p.2 ≤ y + h

end Sketch
