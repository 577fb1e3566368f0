/-!
Sets of characters given by ranges of code points, as a character property of Unicode is.
-/

namespace Sketch.Text

/-- The ranges from `start` on, by the code points left out before each and those behind its first. -/
def rangesFrom (start : Nat) : List Nat → List (Nat × Nat)
  | gap :: more :: rest => (start + gap, start + gap + more) :: rangesFrom (start + gap + more + 1) rest
  | _ => []

@[inherit_doc rangesFrom]
def ranges (gaps : List Nat) : Array (Nat × Nat) := (rangesFrom 0 gaps).toArray

/-- Whether `c` lies in one of the ranges, both ends included. -/
def inRanges (ranges : Array (Nat × Nat)) (c : Char) : Bool :=
  ranges.any fun (first, last) => first ≤ c.toNat && c.toNat ≤ last

end Sketch.Text
