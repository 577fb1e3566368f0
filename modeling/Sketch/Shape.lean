import Sketch.Color
import Sketch.Transform

/-!
What a sketch draws: shapes in its own coordinates, with the style and the transform that were current.
-/

namespace Sketch

/-- Paint of a shape. Absent paint draws nothing. -/
structure Style where
  fill : Option Color
  stroke : Option Color
  strokeWeight : Float
deriving DecidableEq, Repr, Inhabited

/-- The paint of a fresh run: black on black, one wide. -/
def Style.initial : Style := ⟨some .black, some .black, 1.0⟩

/-- What a text's vertical place refers to. -/
inductive Baseline where
  | alphabetic | middle
deriving DecidableEq, Repr, Inhabited

/-- Shapes. An ellipse or arc has its centre and its full diameters; a text has its left end. -/
inductive Shape where
  | rect (x y w h : Float)
  | ellipse (center size : Point)
  | line (start stop : Point)
  | point (p : Point)
  | triangle (a b c : Point)
  | quad (a b c d : Point)
  | arc (center size : Point) (start stop : Float)
  | text (text : String) (place : Point) (size : Float) (baseline : Baseline)
deriving DecidableEq, Repr, Inhabited

/-- A shape as it was drawn. -/
structure Drawing where
  shape : Shape
  style : Style
  transform : Transform
deriving DecidableEq, Repr, Inhabited

/-- What a display is told: to paint the whole surface, or to add a shape. -/
inductive DrawCommand where
  | clear (width height : Float) (color : Color)
  | shape (d : Drawing)
deriving DecidableEq, Repr, Inhabited

end Sketch
