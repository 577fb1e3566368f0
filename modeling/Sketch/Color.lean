import Sketch.Number.Binary

/-!
Colours with channels from 0 to 255 and an alpha from 0 to 1. Making one holds every part in its range.
-/

namespace Sketch

/-- A colour. -/
structure Color where
  r : Float
  g : Float
  b : Float
  a : Float
deriving DecidableEq, Repr, Inhabited

namespace Color

/-- A channel in its range; NaN counts as dark. -/
def channel (v : Float) : Float := if v.isNaN then 0.0 else Number.clamp 0.0 255.0 v

/-- An alpha in its range; NaN counts as opaque. -/
def alpha (v : Float) : Float := if v.isNaN then 1.0 else Number.clamp 0.0 1.0 v

def rgba (r g b a : Float) : Color := ⟨channel r, channel g, channel b, alpha a⟩

def rgb (r g b : Float) : Color := rgba r g b 1.0

def gray (v : Float) : Color := rgb v v v

def black : Color := ⟨0.0, 0.0, 0.0, 1.0⟩

def white : Color := ⟨255.0, 255.0, 255.0, 1.0⟩

/-- Whether two colours are equal as numbers, whatever the sign of a zero. -/
def sameAs (c d : Color) : Bool := c.r == d.r && c.g == d.g && c.b == d.b && c.a == d.a

/-- The colour of one, three or four numbers: gray, opaque, or with alpha. -/
def ofNumbers? : List Float → Option Color
  | [v] => some (gray v)
  | [r, g, b] => some (rgb r g b)
  | [r, g, b, a] => some (rgba r g b a)
  | _ => none

/-- The four parts as bytes, alpha scaled like a channel. -/
def toBytes (c : Color) : List UInt8 :=
  [c.r.round.toUInt8, c.g.round.toUInt8, c.b.round.toUInt8, (c.a * 255.0).round.toUInt8]

end Color

end Sketch
