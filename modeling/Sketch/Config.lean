import Sketch.Dice
import Sketch.Number.Binary

/-!
Settings of an engine, and lengths of time in nanoseconds.
-/

namespace Sketch

/-- Settings of an engine. Every run starts from these. -/
structure Config where
  canvasWidth : Float := 400.0
  canvasHeight : Float := 300.0
  /-- Frames per second. -/
  frameRate : Float := 60.0
  /-- Size of a text that names none. -/
  textSize : Float := 16.0
  /-- Lines that stand before the sketch in reported positions. -/
  wrapperOffset : Nat := 0
  /-- Nested calls of a sketch's own functions. -/
  maxCallDepth : Nat := 100
  dice : Dice := .seeded 0x2545F4914F6CDD1D
deriving Inhabited

/-- Nanoseconds in a number of seconds, a half going to the even one. Clocks hold fewer than 2 ^ 64 seconds. -/
def nanoseconds? (seconds : Float) : Option Nat :=
  match Number.binary seconds with
  | .finite false significand exponent =>
    let (num, den) := Number.ratio significand exponent
    if Nat.pow 2 64 * den ≤ num then none else some (Number.roundDiv (num * 1000000000) den)
  | .finite true .. => some 0
  | .infinite _ | .nan => none

namespace Config

/-- The rate in force: without a usable one, 60 frames per second. -/
def rate (c : Config) : Float :=
  if c.frameRate.isFinite && 0.0 < c.frameRate then c.frameRate else 60.0

def framePeriod? (c : Config) : Option Nat := nanoseconds? (1.0 / c.rate)

end Config

end Sketch
