/-!
The exact value of a double, `± significand * 2 ^ exponent`. Questions about remainders and rounding are answered in
integer arithmetic on that form.
-/

namespace Sketch.Number

/-- The value of a double: a special value, or a signed dyadic number. The sign of a zero is kept. -/
inductive Binary where
  | nan
  | infinite (negative : Bool)
  | finite (negative : Bool) (significand : Nat) (exponent : Int)
deriving DecidableEq, Repr, Inhabited

/-- Least exponent of a double; a subnormal number and the smallest normal ones have it. -/
def minExponent : Int := -1074

/-- The exact value of `x`. -/
def binary (x : Float) : Binary :=
  let bits : Nat := x.toBits.toNat
  let negative := decide (Nat.pow 2 63 ≤ bits)
  let biased : Nat := bits / Nat.pow 2 52 % Nat.pow 2 11
  let fraction : Nat := bits % Nat.pow 2 52
  if biased = 2047 then
    if fraction = 0 then .infinite negative else .nan
  else if biased = 0 then .finite negative fraction minExponent
  else .finite negative (fraction + Nat.pow 2 52) ((biased : Int) - 1075)

/-- The double `± significand * 2 ^ exponent`, for a value that a double can hold. -/
def ofBinary (negative : Bool) (significand : Nat) (exponent : Int) : Float :=
  let sign : Nat := if negative then Nat.pow 2 63 else 0
  if significand = 0 then Float.ofBits (UInt64.ofNat sign)
  else
    let shift := min (52 - significand.log2) (exponent - minExponent).toNat
    let scaled := significand * Nat.pow 2 shift
    let magnitude :=
      if scaled < Nat.pow 2 52 then scaled
      else scaled - Nat.pow 2 52 + (exponent - shift + 1075).toNat * Nat.pow 2 52
    Float.ofBits (UInt64.ofNat (sign + magnitude))

/-- Numerator and denominator of `significand * 2 ^ exponent`. -/
def ratio (significand : Nat) (exponent : Int) : Nat × Nat :=
  match exponent with
  | .ofNat e => (significand * Nat.pow 2 e, 1)
  | .negSucc e => (significand, Nat.pow 2 (e + 1))

/-- The magnitude of `x` when `x` is a whole number; its sign is left to the caller. -/
def wholeMagnitude? (x : Float) : Option Nat :=
  match binary x with
  | .finite _ m e =>
    let (num, den) := ratio m e
    if num % den = 0 then some (num / den) else none
  | _ => none

/-- The quotient `num / den` to the nearest whole number, a half going to the even neighbour. -/
def roundDiv (num den : Nat) : Nat :=
  let q := num / den
  let twice := 2 * (num % den)
  if twice < den then q
  else if den < twice then q + 1
  else if q % 2 = 0 then q else q + 1

/-- Remainder of a division cut towards zero. It is exact and has the sign of the dividend. -/
def remainder (x y : Float) : Float :=
  match binary x, binary y with
  | .nan, _ => x
  | _, .nan => y
  | .infinite _, _ => 0.0 / 0.0
  | .finite .., .infinite _ => x
  | .finite negative m e, .finite _ n f =>
    if n = 0 then 0.0 / 0.0
    else
      let low := min e f
      let r := m * Nat.pow 2 (e - low).toNat % (n * Nat.pow 2 (f - low).toNat)
      ofBinary negative r low

/-- The larger of two numbers. A NaN gives way, and of two equal ones the second is taken. -/
def larger (x y : Float) : Float :=
  if x.isNaN then y else if x ≤ y then y else x

/-- The smaller of two numbers, with the rules of `larger`. -/
def smaller (x y : Float) : Float :=
  if x.isNaN then y else if y ≤ x then y else x

/-- `x` held between `lo` and `hi`. A NaN stays, and so does a zero of either sign inside the bounds. -/
def clamp (lo hi x : Float) : Float :=
  if x < lo then lo else if hi < x then hi else x

end Sketch.Number
