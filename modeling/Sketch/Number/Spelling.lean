import Sketch.Number.Shortest

/-!
Numbers as text, never with an exponent. Two spellings are in use: the one that sketches see, and a plain one for
diagnostics.
-/

namespace Sketch.Number

/-- What two ways to write a number may differ in. -/
structure Spelling where
  /-- The text of an infinite magnitude. -/
  infinity : String
  /-- Whether a negative zero keeps its sign. -/
  signedZero : Bool
  /-- Whole numbers below this bound are written with all their digits, and not with the fewest that read
      back followed by zeros. -/
  exactBelow : Nat
deriving DecidableEq, Repr, Inhabited

/-- What a sketch prints: `Infinity`, no sign on a zero, and whole numbers below 10^21 exactly. -/
def Spelling.sketch : Spelling := ⟨"Infinity", false, Nat.pow 10 21⟩

/-- What diagnostics print: `inf`, a signed zero, and the fewest digits for every number. -/
def Spelling.plain : Spelling := ⟨"inf", true, 0⟩

def natText (n : Nat) : List Char := Nat.toDigits 10 n

/-- A decimal written without an exponent. -/
def Digits.positional (d : Digits) : List Char :=
  let ds := natText d.digits
  match d.exponent with
  | .ofNat e => ds ++ List.replicate e '0'
  | .negSucc e =>
    let places := e + 1
    if places < ds.length then
      ds.take (ds.length - places) ++ '.' :: ds.drop (ds.length - places)
    else '0' :: '.' :: (List.replicate (places - ds.length) '0' ++ ds)

/-- The text of a positive finite number `m * 2 ^ q`. -/
def Spelling.magnitude (s : Spelling) (m : Nat) (q : Int) : List Char :=
  let (num, den) := ratio m q
  if num % den = 0 ∧ num / den < s.exactBelow then natText (num / den)
  else (shortest m q).positional

def Spelling.write (s : Spelling) (x : Float) : String :=
  match binary x with
  | .nan => "NaN"
  | .infinite negative => (if negative then "-" else "") ++ s.infinity
  | .finite negative m q =>
    if m = 0 then (if negative && s.signedZero then "-0" else "0")
    else String.ofList ((if negative then ['-'] else []) ++ s.magnitude m q)

end Sketch.Number
