import Sketch.Config
import Sketch.Failure
import Sketch.Heap
import Sketch.Host
import Sketch.Input.Frame

/-!
State that library calls read and change: the canvas with its current paint, the input of the frame, the
buttons, and the heap.
-/

namespace Sketch

/-- How shapes are drawn. -/
structure Context where
  style : Style
  transform : Transform
  textSize : Float
deriving DecidableEq, Repr, Inhabited

/-- The canvas of a run. -/
structure Canvas where
  width : Float
  height : Float
  context : Context
  /-- Contexts to return to, latest first. -/
  saved : List Context
  frame : FrameInput
  widgets : Widgets
  frameCount : Nat
  dice : Dice
  outbox : Outbox
deriving Inhabited

namespace Canvas

def emit (c : Canvas) (command : DrawCommand) : Canvas :=
  { c with outbox := { c.outbox with commands := c.outbox.commands ++ [command] } }

def clear (c : Canvas) (color : Color) : Canvas := c.emit (.clear c.width c.height color)

/-- Draws a shape in a style of its own. -/
def drawStyled (c : Canvas) (shape : Shape) (style : Style) : Canvas :=
  c.emit (.shape ⟨shape, style, c.context.transform⟩)

def draw (c : Canvas) (shape : Shape) : Canvas := c.drawStyled shape c.context.style

def say (c : Canvas) (m : Message) : Canvas :=
  { c with outbox := { c.outbox with messages := c.outbox.messages ++ [m] } }

def resize (c : Canvas) (width height : Float) : Canvas :=
  { c with width, height, outbox := { c.outbox with resized := some (width, height) } }

def withStyle (c : Canvas) (f : Style → Style) : Canvas :=
  { c with context := { c.context with style := f c.context.style } }

/-- Puts a transform before what is drawn from now on. -/
def transformBy (c : Canvas) (m : Transform) : Canvas :=
  { c with context := { c.context with transform := c.context.transform.mul m } }

/-- Keeps the context for later. -/
def push (c : Canvas) : Canvas := { c with saved := c.context :: c.saved }

/-- Returns to the context kept last. Without one nothing happens. -/
def pop (c : Canvas) : Canvas :=
  match c.saved with
  | context :: saved => { c with context, saved }
  | [] => c

/-- Effects so far, which are then gone. -/
def takeOutbox (c : Canvas) : List HostEvent × Canvas :=
  (c.outbox.events, { c with outbox := .empty })

/-- The canvas of a run that starts with the pointer at `mouse`: of the configured size, painted white. -/
def fresh (config : Config) (mouse : Point) : Canvas :=
  let blank : Canvas :=
    { width := config.canvasWidth, height := config.canvasHeight
      context := ⟨.initial, .identity, config.textSize⟩
      saved := [], frame := .startingAt mouse, widgets := .empty, frameCount := 0
      dice := config.dice, outbox := .empty }
  (blank.resize blank.width blank.height).clear .white

end Canvas

/-- All that library calls can read and change. -/
structure World where
  heap : Heap
  canvas : Canvas
deriving Inhabited

/-- What a library call does: it changes the world and gives a value, or it fails. -/
abbrev Action := EStateM Abort World

/-- Fails for a reason. -/
def Action.fail {α : Type} (c : Cause) : Action α := throw (.cause c)

end Sketch
