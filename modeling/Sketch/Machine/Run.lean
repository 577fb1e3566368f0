import Sketch.Machine.Step

/-!
Runs of a sketch, up to the point where they can go no further by themselves.
-/

namespace Sketch.Machine

/-- Steps up to a pause or an end, at most `fuel` of them. -/
def run (script : Script) : (fuel : Nat) → Machine → Step
  | 0, m => .next m
  | fuel + 1, m =>
    match m.step script with
    | .next m => run script fuel m
    | halted => halted

/-- Steps that a sketch does at once, without a pause. -/
def patience : Nat := Nat.pow 2 60

def resume (m : Machine) (v : Value) : Machine := m.goto (.deliver v)

end Sketch.Machine
