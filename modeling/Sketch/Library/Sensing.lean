import Sketch.Builtin
import Sketch.Library.Arguments

/-!
Questions about mouse, keys and buttons during the current frame.
-/

namespace Sketch

/-- The mouse button of an argument: a code, or a name with or without the ending `Mouse`. -/
def mouseButton? : Value → Option MouseButton
  | .num x => MouseButton.ofCode? x
  | .str s =>
    let cs := s.toList
    let ending := "Mouse".toList
    if ending.isSuffixOf cs then
      MouseButton.ofName? (String.ofList (cs.take (cs.length - ending.length)))
    else MouseButton.ofName? s
  | _ => none

/-- The mouse button of an argument, which has to be one. -/
def asMouseButton (v : Value) : Action MouseButton := do
  match mouseButton? v with
  | some b => return b
  | none => Action.fail (.unknownButton (← World.text v))

/-- The face of a button whose paint is not chosen. -/
def buttonFace : Color := ⟨200.0, 200.0, 200.0, 1.0⟩

def buttonEdge : Color := ⟨100.0, 100.0, 100.0, 1.0⟩

/-- The paint of a button's face: the current one, unless it is still black. -/
def Canvas.buttonFill (c : Canvas) : Color :=
  match c.context.style.fill with
  | some color => if color.sameAs .black then buttonFace else color
  | none => buttonFace

/-- Draws a button with its label, and notes whether a click of this frame hit it. -/
def Canvas.button (c : Canvas) (x y w h : Float) (id : String) : Bool × Canvas :=
  let hit := c.frame.anyClick && hitTest c.frame.mouse x y w h
  let (clicked, widgets) := c.widgets.record id hit
  let c := { c with widgets }
  let c := c.drawStyled (.rect x y w h) ⟨some c.buttonFill, some buttonEdge, 1.0⟩
  let label := Shape.text id (x + 10.0, y + h / 2.0) 14.0 .middle
  (clicked, c.drawStyled label ⟨some .black, none, 1.0⟩)

/-- The answer to a question about the frame, and for the last function nil. -/
def SenseFn.perform (f : SenseFn) (values : List Value) : Action Value := do
  let a : Arguments := ⟨f.name, values⟩
  let frame := (← World.getCanvas).frame
  match f with
  | .isKeyPressed =>
    a.expect 1
    return .bool (frame.isKeyDown (← a.text 0))
  | .keyPressed | .keyHeld =>
    if values.isEmpty then return .bool (!frame.keysDown.isEmpty)
    return .bool ((← values.mapM World.text).all frame.isKeyDown)
  | .keyClicked =>
    match values with
    | [] => return .bool (!frame.keyClicks.isEmpty)
    | [.list r] => return .bool ((← (← World.items r).toList.mapM World.text).any frame.wasKeyClicked)
    | values => return .bool ((← values.mapM World.text).any frame.wasKeyClicked)
  | .isLeftMouse =>
    a.expect 0
    return .bool (frame.button.getD .left = .left)
  | .isRightMouse =>
    a.expect 0
    return .bool (frame.button = some .right)
  | .mouseClicked =>
    if values.isEmpty then return .bool frame.anyClick
    return .bool ((← values.mapM asMouseButton).any frame.wasClicked)
  | .button =>
    a.expect 5
    let (x, y) ← a.point 0
    let (w, h) ← a.point 2
    let id ← a.text 4
    let clicked ← modifyGet fun world =>
      let (clicked, canvas) := world.canvas.button x y w h id
      (clicked, { world with canvas })
    return .bool clicked
  | .buttonClicked =>
    a.expect 1
    return .bool ((← World.getCanvas).widgets.clicked (← a.text 0))
  | .clearButtons =>
    a.expect 0
    World.onCanvas fun c => { c with widgets := c.widgets.clearClicks }
    return .nil

end Sketch
