import Sketch.Number.Binary

/-!
The fewest decimal digits that read back as the same double: the shortest decimal in the interval that rounds to it,
and of two equally short ones the nearer.
-/

namespace Sketch.Number

/-- A positive decimal `digits * 10 ^ exponent`. -/
structure Digits where
  digits : Nat
  exponent : Int
deriving DecidableEq, Repr, Inhabited

/-- The reals that round to one double: from `low` to `high` over `scale`, the ends counting when `closed`. -/
structure Rounding where
  low : Nat
  value : Nat
  high : Nat
  scale : Nat
  closed : Bool
deriving Repr

/-- The interval of the double `m * 2 ^ q`. Below a power of two the gap is half as wide. -/
def Rounding.ofBinary (m : Nat) (q : Int) : Rounding :=
  let narrow := m = Nat.pow 2 52 && minExponent < q
  let (num, den) := ratio 1 (q - 2)
  { low := (4 * m - if narrow then 1 else 2) * num
    value := 4 * m * num
    high := (4 * m + 2) * num
    scale := den
    closed := m % 2 = 0 }

/-- Whether `num / den` lies in the interval. -/
def Rounding.contains (r : Rounding) (num den : Nat) : Bool :=
  let x := num * r.scale
  let lo := r.low * den
  let hi := r.high * den
  if r.closed then decide (lo ≤ x) && decide (x ≤ hi) else decide (lo < x) && decide (x < hi)

/-- The grid point `k * 10 ^ e` as a fraction. -/
def gridPoint (k : Nat) (e : Int) : Nat × Nat :=
  match e with
  | .ofNat e => (k * Nat.pow 10 e, 1)
  | .negSucc e => (k, Nat.pow 10 (e + 1))

/-- A decimal of the grid `10 ^ e` that reads back as the value: the nearer neighbour, the upper one at a tie. -/
def Rounding.onGrid? (r : Rounding) (e : Int) : Option Nat :=
  let (unitNum, unitDen) := gridPoint 1 e
  let below := r.value * unitDen / (r.scale * unitNum)
  let hit (k : Nat) : Bool :=
    let (num, den) := gridPoint k e
    0 < k && r.contains num den
  -- twice the value against the sum of both neighbours, on a common denominator
  let upperNearer := (2 * below + 1) * (r.scale * unitNum) ≤ 2 * (r.value * unitDen)
  match hit below, hit (below + 1) with
  | true, true => some (if upperNearer then below + 1 else below)
  | true, false => some below
  | false, true => some (below + 1)
  | false, false => none

/-- Searches the grids from coarse to fine. -/
def Rounding.search (r : Rounding) : Nat → Int → Digits
  | 0, e => { digits := r.value / r.scale, exponent := e }
  | fuel + 1, e =>
    match r.onGrid? e with
    | some k => { digits := k, exponent := e }
    | none => r.search fuel (e - 1)

/-- Number of decimal digits of `n`, none for zero. -/
def decimalLength (n : Nat) : Nat := if n = 0 then 0 else (Nat.toDigits 10 n).length

/-- The decimal power of the leading digit of `r.value / r.scale`, or one more. -/
def Rounding.leadingExponent (r : Rounding) : Int :=
  if r.scale ≤ r.value then decimalLength (r.value / r.scale)
  else 1 - (decimalLength (r.scale / r.value) : Int)

def Digits.strip : Nat → Digits → Digits
  | 0, d => d
  | fuel + 1, d =>
    if d.digits ≠ 0 ∧ d.digits % 10 = 0 then
      Digits.strip fuel { digits := d.digits / 10, exponent := d.exponent + 1 }
    else d

/-- The shortest decimal that reads back as `m * 2 ^ q`. Twenty grids hold an answer. -/
def shortest (m : Nat) (q : Int) : Digits :=
  let r := Rounding.ofBinary m q
  Digits.strip 400 (r.search 20 r.leadingExponent)

end Sketch.Number
