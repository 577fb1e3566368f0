/-!
Where arbitrary numbers come from. Nothing is said of the numbers, so that whatever holds of a run holds whatever its
dice show.
-/

namespace Sketch

/-- Dice that show one number after the other. -/
structure Dice where
  numbers : Nat → UInt64
  /-- How many numbers were shown. -/
  rolled : Nat
deriving Inhabited

namespace Dice

/-- Dice whose numbers follow from a seed: an additive step for each, and a mixing of its bits. -/
def seeded (seed : UInt64) : Dice where
  numbers n :=
    let z := seed + UInt64.ofNat (n + 1) * 0x9E3779B97F4A7C15
    let z := (z ^^^ (z >>> 30)) * 0xBF58476D1CE4E5B9
    let z := (z ^^^ (z >>> 27)) * 0x94D049BB133111EB
    z ^^^ (z >>> 31)
  rolled := 0

def roll (d : Dice) : UInt64 × Dice := (d.numbers d.rolled, { d with rolled := d.rolled + 1 })

/-- A number from 0 to 1, 1 excluded. -/
def unit (d : Dice) : Float × Dice :=
  let (r, d) := d.roll
  ((r >>> 11).toFloat / 9007199254740992.0, d)

def rolls : Nat → Dice → List UInt64 × Dice
  | 0, d => ([], d)
  | n + 1, d =>
    let (r, d) := d.roll
    let (rs, d) := rolls n d
    (r :: rs, d)

end Dice

end Sketch
