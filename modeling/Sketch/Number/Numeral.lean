import Sketch.Number.Shortest

/-!
Decimal numerals: how a number is written in a sketch or in a text that is turned into a number, and
the double nearest to it.
-/

namespace Sketch.Number

def isDigit (c : Char) : Bool := '0' ≤ c && c ≤ '9'

/-- The number that a run of digits stands for. -/
def digitsValue (cs : List Char) : Nat :=
  cs.foldl (fun n c => 10 * n + (c.toNat - 48)) 0

/-- The double nearest to `digits * 10 ^ exponent`. No huge power is ever formed. -/
def Digits.toFloat (d : Digits) : Float :=
  let size : Int := decimalLength d.digits + d.exponent
  if d.digits = 0 then 0.0
  else if 310 < size then 1.0 / 0.0
  else if size < -330 then 0.0
  else
    match d.exponent with
    | .ofNat e => Float.ofScientific d.digits false e
    | .negSucc e => Float.ofScientific d.digits true (e + 1)

/-- An unsigned numeral as it is written: digits, a point with digits, and an exponent with its mark and sign. -/
structure Numeral where
  whole : List Char
  fraction : Option (List Char)
  exponent : Option (Char × Option Char × List Char)
deriving DecidableEq, Repr, Inhabited

namespace Numeral

def text (n : Numeral) : List Char :=
  n.whole
    ++ (match n.fraction with
        | none => []
        | some ds => '.' :: ds)
    ++ (match n.exponent with
        | none => []
        | some (mark, sign, ds) => mark :: (sign.toList ++ ds))

/-- The double nearest to a numeral. -/
def value (n : Numeral) : Float :=
  let fraction := n.fraction.getD []
  let exponent : Int :=
    match n.exponent with
    | none => 0
    | some (_, some '-', ds) => -(digitsValue ds : Int)
    | some (_, _, ds) => digitsValue ds
  Digits.toFloat
    { digits := digitsValue (n.whole ++ fraction), exponent := exponent - fraction.length }

/-- Digits, and what follows them. -/
def readDigits (cs : List Char) : List Char × List Char :=
  (cs.takeWhile isDigit, cs.dropWhile isDigit)

/-- An exponent at the start of `cs`. It is taken only when a digit follows its mark and sign. -/
def readExponent (cs : List Char) : Option (Char × Option Char × List Char) × List Char :=
  match cs with
  | mark :: rest =>
    if mark = 'e' ∨ mark = 'E' then
      let (sign, digits) :=
        match rest with
        | c :: rest' => if c = '+' ∨ c = '-' then (some c, rest') else (none, rest)
        | [] => (none, rest)
      let (ds, after) := readDigits digits
      if ds = [] then (none, cs) else (some (mark, sign, ds), after)
    else (none, cs)
  | [] => (none, [])

/-- The longest numeral at the start of `cs`, and what follows it. -/
def read? (cs : List Char) : Option (Numeral × List Char) :=
  let (whole, afterWhole) := readDigits cs
  let (fraction, afterFraction) :=
    match afterWhole with
    | '.' :: rest =>
      let (ds, after) := readDigits rest
      (some ds, after)
    | _ => (none, afterWhole)
  if whole = [] ∧ fraction.getD [] = [] then none
  else
    let (exponent, rest) := readExponent afterFraction
    some ({ whole, fraction, exponent }, rest)

/-- A whole text that is one numeral after an optional sign. -/
def readSigned? (cs : List Char) : Option Float :=
  match cs with
  | '-' :: rest =>
    match read? rest with
    | some (n, []) => some (-n.value)
    | _ => none
  | '+' :: rest =>
    match read? rest with
    | some (n, []) => some n.value
    | _ => none
  | _ =>
    match read? cs with
    | some (n, []) => some n.value
    | _ => none

end Numeral

end Sketch.Number
