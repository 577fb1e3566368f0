/-!
Transforms of the plane, as matrices of three rows and columns that act on points `(x, y, 1)`.
-/

namespace Sketch

/-- A point, or a pair of lengths. -/
abbrev Point := Float × Float

/-- A matrix by rows. -/
structure Transform where
  m00 : Float
  m01 : Float
  m02 : Float
  m10 : Float
  m11 : Float
  m12 : Float
  m20 : Float
  m21 : Float
  m22 : Float
deriving DecidableEq, Repr, Inhabited

namespace Transform

def identity : Transform := ⟨1, 0, 0, 0, 1, 0, 0, 0, 1⟩

/-- Moves by `(tx, ty)`. -/
def shift (tx ty : Float) : Transform := ⟨1, 0, tx, 0, 1, ty, 0, 0, 1⟩

/-- Turns by an angle in radians, clockwise where y points down. -/
def rotation (angle : Float) : Transform :=
  let s := angle.sin
  let c := angle.cos
  ⟨c, -s, 0, s, c, 0, 0, 0, 1⟩

def scaling (sx sy : Float) : Transform := ⟨sx, 0, 0, 0, sy, 0, 0, 0, 1⟩

/-- One entry of a product, summed up from zero and from the left. -/
def dot (a0 a1 a2 b0 b1 b2 : Float) : Float := 0.0 + a0 * b0 + a1 * b1 + a2 * b2

/-- The transform that applies `b` first and then `a`. -/
def mul (a b : Transform) : Transform :=
  { m00 := dot a.m00 a.m01 a.m02 b.m00 b.m10 b.m20
    m01 := dot a.m00 a.m01 a.m02 b.m01 b.m11 b.m21
    m02 := dot a.m00 a.m01 a.m02 b.m02 b.m12 b.m22
    m10 := dot a.m10 a.m11 a.m12 b.m00 b.m10 b.m20
    m11 := dot a.m10 a.m11 a.m12 b.m01 b.m11 b.m21
    m12 := dot a.m10 a.m11 a.m12 b.m02 b.m12 b.m22
    m20 := dot a.m20 a.m21 a.m22 b.m00 b.m10 b.m20
    m21 := dot a.m20 a.m21 a.m22 b.m01 b.m11 b.m21
    m22 := dot a.m20 a.m21 a.m22 b.m02 b.m12 b.m22 }

def apply (m : Transform) (p : Point) : Point :=
  (m.m00 * p.1 + m.m01 * p.2 + m.m02 * 1.0, m.m10 * p.1 + m.m11 * p.2 + m.m12 * 1.0)

def det (m : Transform) : Float :=
  m.m00 * (m.m11 * m.m22 - m.m12 * m.m21)
    - m.m01 * (m.m10 * m.m22 - m.m12 * m.m20)
    + m.m02 * (m.m10 * m.m21 - m.m11 * m.m20)

/-- The factor by which lengths grow on average. -/
def linearScale (m : Transform) : Float := m.det.abs.sqrt

/-- The entries by rows. -/
def toList (m : Transform) : List Float :=
  [m.m00, m.m01, m.m02, m.m10, m.m11, m.m12, m.m20, m.m21, m.m22]

end Transform

end Sketch
