import Sketch.Library.Arithmetic
import Sketch.Library.Collections
import Sketch.Library.Console
import Sketch.Library.Drawing
import Sketch.Library.Obfuscation
import Sketch.Library.Sensing

/-!
The standard library as a whole: calls by name, constants, and the readings of a frame.
-/

namespace Sketch

namespace Builtin

def name : Builtin → String
  | .canvas f => f.name
  | .math f => f.name
  | .lists f => f.name
  | .console f => f.name
  | .pause f => f.name
  | .sense f => f.name
  | .cipher f => f.name

/-- What a function does. Functions that pause a sketch are not done at once and have no action. -/
def action? : Builtin → Option (List Value → Action Value)
  | .canvas f => some fun values => do f.perform values; return .nil
  | .math f => some fun values => do return .num (← f.perform values)
  | .lists f => some f.perform
  | .console f => some f.perform
  | .pause _ => none
  | .sense f => some f.perform
  | .cipher f => some fun values => do return .str (← f.perform values)

end Builtin

namespace Library

/-- What a library does when a function of it is called. Pauses are not among that. -/
def functions : Library → List Builtin
  | .canvas => CanvasFn.all.map .canvas
  | .math => MathFn.all.map .math
  | .lists => ListFn.all.map .lists
  | .io => ConsoleFn.all.map .console
  | .input => SenseFn.all.map .sense
  | .cipher => CipherFn.all.map .cipher

/-- The action of a name in a library. -/
def actionOf? (l : Library) (name : String) : Option (List Value → Action Value) :=
  (l.functions.find? (·.name = name)).bind (·.action?)

end Library

namespace Builtin

/-- The action of a name, in the first library that has one. -/
def actionOf? (name : String) : Option (List Value → Action Value) := Library.all.findSome? (·.actionOf? name)

/-- The function that pauses a sketch, if the name is of one. -/
def pauseOf? (name : String) : Option PauseFn := PauseFn.all.find? (·.name = name)

end Builtin

def Constant.value : Constant → Value
  | .pi => .num 3.141592653589793
  | .twoPi | .tau => .num 6.283185307179586
  | .halfPi => .num 1.5707963267948966
  | .math => .library Library.math.name
  | .leftMouse => .num 0.0
  | .middleMouse => .num 1.0
  | .rightMouse => .num 2.0

/-- The value of a constant of a library. -/
def Library.constant? (l : Library) (name : String) : Option Value :=
  match Constant.ofName? name with
  | some c => if c.library = l then some c.value else none
  | none => none

def Reading.value (r : Reading) (c : Canvas) : Value :=
  let f := c.frame
  match r with
  | .width => .num c.width
  | .height => .num c.height
  | .mouseX => .num f.mouse.1
  | .mouseY => .num f.mouse.2
  | .pmouseX => .num f.lastMouse.1
  | .pmouseY => .num f.lastMouse.2
  | .mousePressed => .bool f.pressed
  | .mouseClicked => .bool f.anyClick
  | .mouseButton => .num (Float.ofNat ((f.button.map MouseButton.code).getD 0))
  | .keyPressed => .bool (!f.keysDown.isEmpty)
  | .key => .str (f.key.getD "")
  | .keyClicked => .bool (!f.keyClicks.isEmpty)
  | .clickedKey => (f.clickedKey.map Value.str).getD .nil
  | .frameCount => .num (Float.ofNat c.frameCount)

end Sketch
