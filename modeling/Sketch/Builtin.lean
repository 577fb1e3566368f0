/-!
The names of the standard library: functions, constants, and readings that a sketch may look at but not write. What a
library exports is listed apart from what it can do: only checks of a program look at the exports.
-/

namespace Sketch

/-- The libraries, in the order in which names are looked up. -/
inductive Library where
  | canvas | math | lists | io | input | cipher
deriving DecidableEq, Repr, Inhabited

namespace Library

def name : Library → String
  | .canvas => "canvas"
  | .math => "math"
  | .lists => "lists"
  | .io => "io"
  | .input => "input"
  | .cipher => "cipher"

def all : List Library := [.canvas, .math, .lists, .io, .input, .cipher]

def ofName? (s : String) : Option Library := all.find? (·.name = s)

end Library

/-- Functions of the canvas. -/
inductive CanvasFn where
  | size | background | fill | noFill | stroke | noStroke | strokeWeight | textSize
  | rect | ellipse | circle | line | point | triangle | quad | arc | text
  | push | pop | translate | rotate | scale
deriving DecidableEq, Repr, Inhabited

/-- Functions of one number. -/
inductive UnaryFn where
  | sin | cos | tan | asin | acos | atan | sqrt | abs | floor | ceil | round
deriving DecidableEq, Repr, Inhabited

/-- Functions of arithmetic. -/
inductive MathFn where
  | unary (f : UnaryFn)
  | atan2 | pow | min | max | random | map | constrain | dist | lerp
deriving DecidableEq, Repr, Inhabited

/-- Functions on lists and maps. -/
inductive ListFn where
  | createList | append | getLength | getItem | setItem
deriving DecidableEq, Repr, Inhabited

/-- Console output and conversions. Two conversions have a long and a short name. -/
inductive ConsoleFn where
  | print | textLong | textShort | numberLong | numberShort | parseInt | parseFloat
deriving DecidableEq, Repr, Inhabited

/-- Functions that pause the sketch. -/
inductive PauseFn where
  | delay | input
deriving DecidableEq, Repr, Inhabited

/-- Questions about mouse, keys and buttons. -/
inductive SenseFn where
  | isKeyPressed | keyPressed | keyHeld | keyClicked | isLeftMouse | isRightMouse | mouseClicked
  | button | buttonClicked | clearButtons
deriving DecidableEq, Repr, Inhabited

/-- Obfuscation of texts. -/
inductive CipherFn where
  | encrypt | decrypt
deriving DecidableEq, Repr, Inhabited

/-- The functions of the standard library. -/
inductive Builtin where
  | canvas (f : CanvasFn)
  | math (f : MathFn)
  | lists (f : ListFn)
  | console (f : ConsoleFn)
  | pause (f : PauseFn)
  | sense (f : SenseFn)
  | cipher (f : CipherFn)
deriving DecidableEq, Repr, Inhabited

/-- The name in a sketch. -/
def CanvasFn.name : CanvasFn → String
  | .size => "size"
  | .background => "background"
  | .fill => "fill"
  | .noFill => "noFill"
  | .stroke => "stroke"
  | .noStroke => "noStroke"
  | .strokeWeight => "strokeWeight"
  | .textSize => "textSize"
  | .rect => "rect"
  | .ellipse => "ellipse"
  | .circle => "circle"
  | .line => "line"
  | .point => "point"
  | .triangle => "triangle"
  | .quad => "quad"
  | .arc => "arc"
  | .text => "text"
  | .push => "push"
  | .pop => "pop"
  | .translate => "translate"
  | .rotate => "rotate"
  | .scale => "scale"

@[inherit_doc CanvasFn.name]
def UnaryFn.name : UnaryFn → String
  | .sin => "sin"
  | .cos => "cos"
  | .tan => "tan"
  | .asin => "asin"
  | .acos => "acos"
  | .atan => "atan"
  | .sqrt => "sqrt"
  | .abs => "abs"
  | .floor => "floor"
  | .ceil => "ceil"
  | .round => "round"

@[inherit_doc CanvasFn.name]
def MathFn.name : MathFn → String
  | .unary f => f.name
  | .atan2 => "atan2"
  | .pow => "pow"
  | .min => "min"
  | .max => "max"
  | .random => "random"
  | .map => "map"
  | .constrain => "constrain"
  | .dist => "dist"
  | .lerp => "lerp"

@[inherit_doc CanvasFn.name]
def ListFn.name : ListFn → String
  | .createList => "createList"
  | .append => "append"
  | .getLength => "getLength"
  | .getItem => "getItem"
  | .setItem => "setItem"

@[inherit_doc CanvasFn.name]
def ConsoleFn.name : ConsoleFn → String
  | .print => "print"
  | .textLong => "String"
  | .textShort => "str"
  | .numberLong => "Number"
  | .numberShort => "num"
  | .parseInt => "parseInt"
  | .parseFloat => "parseFloat"

@[inherit_doc CanvasFn.name]
def PauseFn.name : PauseFn → String
  | .delay => "delay"
  | .input => "input"

@[inherit_doc CanvasFn.name]
def SenseFn.name : SenseFn → String
  | .isKeyPressed => "isKeyPressed"
  | .keyPressed => "keyPressed"
  | .keyHeld => "keyHeld"
  | .keyClicked => "keyClicked"
  | .isLeftMouse => "isLeftMouse"
  | .isRightMouse => "isRightMouse"
  | .mouseClicked => "mouseClicked"
  | .button => "button"
  | .buttonClicked => "buttonClicked"
  | .clearButtons => "clearButtons"

@[inherit_doc CanvasFn.name]
def CipherFn.name : CipherFn → String
  | .encrypt => "encrypt"
  | .decrypt => "decrypt"

def CanvasFn.all : List CanvasFn :=
  [.size, .background, .fill, .noFill, .stroke, .noStroke, .strokeWeight, .textSize, .rect, .ellipse,
    .circle, .line, .point, .triangle, .quad, .arc, .text, .push, .pop, .translate, .rotate, .scale]

def UnaryFn.all : List UnaryFn :=
  [.sin, .cos, .tan, .asin, .acos, .atan, .sqrt, .abs, .floor, .ceil, .round]

def MathFn.all : List MathFn :=
  UnaryFn.all.map .unary ++ [.atan2, .pow, .min, .max, .random, .map, .constrain, .dist, .lerp]

def ListFn.all : List ListFn := [.createList, .append, .getLength, .getItem, .setItem]

def ConsoleFn.all : List ConsoleFn :=
  [.print, .textLong, .textShort, .numberLong, .numberShort, .parseInt, .parseFloat]

def PauseFn.all : List PauseFn := [.delay, .input]

def SenseFn.all : List SenseFn :=
  [.isKeyPressed, .keyPressed, .keyClicked, .keyHeld, .isLeftMouse, .isRightMouse, .mouseClicked,
    .button, .buttonClicked, .clearButtons]

def CipherFn.all : List CipherFn := [.encrypt, .decrypt]

/-- What a name stands for that a library exports. -/
inductive ExportKind where
  | function | constant | reading
deriving DecidableEq, Repr, Inhabited

/-- A name that a library exports. -/
structure Export where
  name : String
  kind : ExportKind
deriving DecidableEq, Repr, Inhabited

/-- Names that stand for something of one kind. -/
def Export.list (kind : ExportKind) (names : List String) : List Export := names.map (⟨·, kind⟩)

namespace Library

/-- What a library exports. A name may be exported twice, as a function and as a reading. -/
def exports : Library → List Export
  | .canvas =>
    Export.list .function ["size", "background", "fill", "noFill", "stroke", "noStroke", "strokeWeight", "textSize",
      "rect", "ellipse", "circle", "line", "point", "triangle", "quad", "arc", "text", "push", "pop",
      "translate", "rotate", "scale"]
    ++ Export.list .reading ["width", "height"]
  | .math =>
    Export.list .function (UnaryFn.all.map (·.name))
    ++ Export.list .function ["atan2", "pow", "min", "max", "random", "map", "constrain", "dist", "lerp"]
    ++ Export.list .constant ["PI", "TWO_PI", "HALF_PI", "TAU", "math"]
  | .lists => Export.list .function ["createList", "append", "getLength", "getItem", "setItem"]
  | .io =>
    Export.list .function ["print", "delay", "input", "String", "str", "Number", "num", "parseInt", "parseFloat"]
  | .input =>
    Export.list .function ["isKeyPressed", "keyPressed", "keyClicked", "keyHeld", "isLeftMouse", "isRightMouse",
      "mouseClicked", "button", "buttonClicked", "clearButtons"]
    ++ Export.list .reading ["mouseX", "mouseY", "pmouseX", "pmouseY", "mousePressed", "mouseClicked", "mouseButton",
      "keyPressed", "key", "keyClicked", "clickedKey", "frameCount"]
    ++ Export.list .constant ["leftMouse", "middleMouse", "rightMouse"]
  | .cipher => Export.list .function ["encrypt", "decrypt"]

/-- Whether a library exports a name as something of a kind. -/
def exported (kind : ExportKind) (name : String) : Bool := all.any fun l => l.exports.any (· = ⟨name, kind⟩)

end Library

/-- Values that change from frame to frame. A sketch reads them like variables and cannot write them. -/
inductive Reading where
  | width | height | mouseX | mouseY | pmouseX | pmouseY | mousePressed | mouseClicked | mouseButton
  | keyPressed | key | keyClicked | clickedKey | frameCount
deriving DecidableEq, Repr, Inhabited

namespace Reading

def name : Reading → String
  | .width => "width"
  | .height => "height"
  | .mouseX => "mouseX"
  | .mouseY => "mouseY"
  | .pmouseX => "pmouseX"
  | .pmouseY => "pmouseY"
  | .mousePressed => "mousePressed"
  | .mouseClicked => "mouseClicked"
  | .mouseButton => "mouseButton"
  | .keyPressed => "keyPressed"
  | .key => "key"
  | .keyClicked => "keyClicked"
  | .clickedKey => "clickedKey"
  | .frameCount => "frameCount"

def all : List Reading :=
  [.width, .height, .mouseX, .mouseY, .pmouseX, .pmouseY, .mousePressed, .mouseClicked, .mouseButton,
    .keyPressed, .key, .keyClicked, .clickedKey, .frameCount]

def ofName? (s : String) : Option Reading := all.find? (·.name = s)

end Reading

/-- Named values that never change. -/
inductive Constant where
  | pi | twoPi | halfPi | tau | math | leftMouse | middleMouse | rightMouse
deriving DecidableEq, Repr, Inhabited

namespace Constant

def name : Constant → String
  | .pi => "PI"
  | .twoPi => "TWO_PI"
  | .halfPi => "HALF_PI"
  | .tau => "TAU"
  | .math => "math"
  | .leftMouse => "leftMouse"
  | .middleMouse => "middleMouse"
  | .rightMouse => "rightMouse"

/-- The library that a constant belongs to. -/
def library : Constant → Library
  | .pi | .twoPi | .halfPi | .tau | .math => .math
  | .leftMouse | .middleMouse | .rightMouse => .input

def all : List Constant :=
  [.pi, .twoPi, .halfPi, .tau, .math, .leftMouse, .middleMouse, .rightMouse]

def ofName? (s : String) : Option Constant := all.find? (·.name = s)

end Constant

end Sketch
