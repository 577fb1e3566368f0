/-!
Bytes as texts of 64 signs. Three bytes are four signs; what is left over at the end takes two or three, with
or without padding.
-/

namespace Sketch.Base64

/-- The two signs in which alphabets differ, for the digits 62 and 63. -/
structure Alphabet where
  plus : Char
  slash : Char
deriving DecidableEq, Repr, Inhabited

/-- The usual alphabet. -/
def standard : Alphabet := ⟨'+', '/'⟩

/-- The alphabet that is safe in addresses. -/
def urlSafe : Alphabet := ⟨'-', '_'⟩

/-- The sign of a digit below 64. -/
def Alphabet.sign (a : Alphabet) (d : Nat) : Char :=
  if d < 26 then Char.ofNat (65 + d)
  else if d < 52 then Char.ofNat (71 + d)
  else if d < 62 then Char.ofNat (d - 4)
  else if d = 62 then a.plus
  else a.slash

def Alphabet.digit? (a : Alphabet) (c : Char) : Option Nat :=
  if c.isUpper then some (c.toNat - 65)
  else if c.isLower then some (c.toNat - 71)
  else if c.isDigit then some (c.toNat + 4)
  else if c = a.plus then some 62
  else if c = a.slash then some 63
  else none

/-- Digits of 6 bits for bytes of 8 bits. -/
def digits : List UInt8 → List Nat
  | [] => []
  | [x] => [x.toNat / 4, x.toNat % 4 * 16]
  | [x, y] => [x.toNat / 4, x.toNat % 4 * 16 + y.toNat / 16, y.toNat % 16 * 4]
  | x :: y :: z :: rest =>
    x.toNat / 4 :: (x.toNat % 4 * 16 + y.toNat / 16) :: (y.toNat % 16 * 4 + z.toNat / 64)
      :: z.toNat % 64 :: digits rest

/-- The bytes of digits. A single digit cannot be left over; unused bits at the end do not matter. -/
def bytes? : List Nat → Option (List UInt8)
  | [] => some []
  | [_] => none
  | [p, q] => some [UInt8.ofNat (p * 4 + q / 16)]
  | [p, q, r] => some [UInt8.ofNat (p * 4 + q / 16), UInt8.ofNat (q % 16 * 16 + r / 4)]
  | p :: q :: r :: s :: rest => do
    let tail ← bytes? rest
    return UInt8.ofNat (p * 4 + q / 16) :: UInt8.ofNat (q % 16 * 16 + r / 4)
      :: UInt8.ofNat (r % 4 * 64 + s) :: tail

/-- The signs of bytes, filled up to a multiple of four if `padded`. -/
def encode (a : Alphabet) (padded : Bool) (bytes : List UInt8) : List Char :=
  let signs := (digits bytes).map a.sign
  if padded then signs ++ List.replicate ((4 - signs.length % 4) % 4) '=' else signs

/-- The bytes of signs, padded or not. -/
def decode? (a : Alphabet) (text : List Char) : Option (List UInt8) := do
  let signs := (text.reverse.dropWhile (· = '=')).reverse
  bytes? (← signs.mapM a.digit?)

end Sketch.Base64
