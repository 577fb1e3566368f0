import Sketch.Builtin
import Sketch.Library.Arguments
import Sketch.Number.Hypot

/-!
Functions of arithmetic.
-/

namespace Sketch

/-- The value of a function of one number. A half is rounded up. -/
def UnaryFn.apply : UnaryFn → Float → Float
  | .sin => Float.sin
  | .cos => Float.cos
  | .tan => Float.tan
  | .asin => Float.asin
  | .acos => Float.acos
  | .atan => Float.atan
  | .sqrt => Float.sqrt
  | .abs => Float.abs
  | .floor => Float.floor
  | .ceil => Float.ceil
  | .round => fun x => (x + 0.5).floor

/-- Carries `v` from one range over to another, linearly and without bounds. -/
def remap (v start1 stop1 start2 stop2 : Float) : Float :=
  start2 + (stop2 - start2) * ((v - start1) / (stop1 - start1))

/-- Holds `v` between two bounds. Between crossed bounds the lower one wins. -/
def holdBetween (v lo hi : Float) : Float := Number.larger lo (Number.smaller hi v)

/-- The point at the part `t` of the way from `a` to `b`. -/
def interpolate (a b t : Float) : Float := a + (b - a) * t

/-- The numbers among which the least or greatest is sought: the arguments, or the items of one list. -/
def Arguments.candidates (a : Arguments) : Action (List Float) := do
  match a.values with
  | [.list r] => (← World.items r).toList.mapM a.asNumber
  | values => values.mapM a.asNumber

/-- Takes all numbers together, from the left. -/
def Arguments.reduce (a : Arguments) (f : Float → Float → Float) : Action Float := do
  match ← a.candidates with
  | [] => Action.fail (.noNumbers a.name)
  | x :: xs => return xs.foldl f x

def rollUnit : Action Float :=
  modifyGet fun w =>
    let (x, dice) := w.canvas.dice.unit
    (x, { w with canvas := { w.canvas with dice } })

def MathFn.perform (f : MathFn) (values : List Value) : Action Float := do
  let a : Arguments := ⟨f.name, values⟩
  match f with
  | .unary g =>
    a.expect 1
    return g.apply (← a.number 0)
  | .atan2 =>
    a.expect 2
    let (y, x) ← a.point 0
    return Float.atan2 y x
  | .pow =>
    a.expect 2
    let (x, y) ← a.point 0
    return Float.pow x y
  | .min => a.reduce Number.smaller
  | .max => a.reduce Number.larger
  | .random =>
    a.expectRange 0 2
    match a.count with
    | 0 => rollUnit
    | 1 =>
      let hi ← a.number 0
      return (← rollUnit) * hi
    | _ =>
      let (lo, hi) ← a.point 0
      return lo + (← rollUnit) * (hi - lo)
  | .map =>
    a.expect 5
    let v ← a.number 0
    let (start1, stop1) ← a.point 1
    let (start2, stop2) ← a.point 3
    return remap v start1 stop1 start2 stop2
  | .constrain =>
    a.expect 3
    let v ← a.number 0
    let (lo, hi) ← a.point 1
    return holdBetween v lo hi
  | .dist =>
    a.expect 4
    let x2 ← a.number 2
    let x1 ← a.number 0
    let y2 ← a.number 3
    let y1 ← a.number 1
    return Number.hypot (x2 - x1) (y2 - y1)
  | .lerp =>
    a.expect 3
    let (p, q) ← a.point 0
    let t ← a.number 2
    return interpolate p q t

end Sketch
