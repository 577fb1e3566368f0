/-!
Numbers in base 36, with the digits `0` to `9` and `a` to `z`.
-/

namespace Sketch.Base36

/-- The sign of a digit below 36. -/
def sign (d : Nat) : Char := if d < 10 then Char.ofNat (48 + d) else Char.ofNat (87 + d)

/-- The digit of a sign, in either case. -/
def digit? (c : Char) : Option Nat :=
  if c.isDigit then some (c.toNat - 48)
  else if c.isLower then some (c.toNat - 87)
  else if c.isUpper then some (c.toNat - 55)
  else none

/-- The signs of a number, before those of the numbers already written. -/
def writeOnto (n : Nat) (signs : List Char) : List Char :=
  if h : n < 36 then sign n :: signs else writeOnto (n / 36) (sign (n % 36) :: signs)
termination_by n
decreasing_by omega

/-- The signs of a number, without zeros in front. -/
def write (n : Nat) : List Char := writeOnto n []

/-- The number of digits that follow a number already read. -/
def readOnto : Nat → List Char → Option Nat
  | n, [] => some n
  | n, c :: rest => do readOnto (n * 36 + (← digit? c)) rest

/-- The number of a text: digits with or without a plus sign, for a number of at most 64 bits. -/
def read? (text : List Char) : Option Nat := do
  let signs := match text with
    | '+' :: rest => rest
    | signs => signs
  guard (signs ≠ [])
  let n ← readOnto 0 signs
  guard (n < Nat.pow 2 64)
  return n

end Sketch.Base36
