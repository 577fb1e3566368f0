import Sketch.Number.Binary

/-!
The length of a vector. The square root of the sum of squares is corrected for its rounding error, and very large or
small lengths are scaled first.
-/

namespace Sketch.Number

/-- `2 ^ -600`, the scale for extreme lengths. -/
def hypotScale : Float := ofBinary false 1 (-600)

/-- The length for `0 ≤ ay ≤ ax`, where no square overflows or vanishes. -/
def hypotKernel (ax ay : Float) : Float :=
  let h := Float.sqrt (ax * ax + ay * ay)
  let (t1, t2) :=
    if h ≤ 2.0 * ay then
      let delta := h - ay
      (ax * (2.0 * delta - ax), (delta - 2.0 * (ax - ay)) * delta)
    else
      let delta := h - ax
      (2.0 * delta * (ax - 2.0 * ay), (4.0 * delta - ay) * ay + delta * delta)
  h - (t1 + t2) / (2.0 * h)

/-- The length of the vector `(x, y)`. An infinite side makes it infinite, whatever the other is. -/
def hypot (x y : Float) : Float :=
  if x.isInf || y.isInf then 1.0 / 0.0
  else if x.isNaN || y.isNaN then x + y
  else
    let a := x.abs
    let b := y.abs
    let ax := if a < b then b else a
    let ay := if a < b then a else b
    let eps := ofBinary false 1 (-54)
    if ofBinary false 1 511 < ax then
      if ay ≤ ax * eps then ax + ay
      else hypotKernel (ax * hypotScale) (ay * hypotScale) / hypotScale
    else if ay < ofBinary false 1 (-459) then
      if ay / eps ≤ ax then ax + ay
      else hypotKernel (ax / hypotScale) (ay / hypotScale) * hypotScale
    else if ay ≤ ax * eps then ax + ay
    else hypotKernel ax ay

end Sketch.Number
