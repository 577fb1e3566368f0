import Sketch.Number.Numeral
import Sketch.Text.Blank
import Sketch.Text.Search
import Sketch.Value

/-!
Turning values into numbers. A whole text can be a number, or only its start.
-/

namespace Sketch.Conversion

def nan : Float := 0.0 / 0.0

def infinity : Float := 1.0 / 0.0

/-- A whole text as a number: a signed numeral or `Infinity`. -/
def number? (cs : List Char) : Option Float :=
  if cs = "Infinity".toList ∨ cs = "+Infinity".toList then some infinity
  else if cs = "-Infinity".toList then some (-infinity)
  else if cs.any fun c => c.isAlpha && c ≠ 'e' && c ≠ 'E' then none
  else Number.Numeral.readSigned? cs

/-- The number that a value stands for. A text is read without the blanks around it. -/
def toNumber : Value → Float
  | .num x => x
  | .bool b => if b then 1.0 else 0.0
  | .nil => 0.0
  | .str s =>
    let cs := Text.trim s.toList
    if cs = [] then 0.0 else (number? cs).getD nan
  | .list _ | .map _ | .library _ => nan

/-- A factor for the sign at the start of a text, and what follows it. -/
def splitSign : List Char → Float × List Char
  | '-' :: rest => (-1.0, rest)
  | '+' :: rest => (1.0, rest)
  | cs => (1.0, cs)

/-- The whole number at the start of a text, and NaN without one. -/
def parseInt (s : String) : Float :=
  let (sign, rest) := splitSign (Text.trimStart s.toList)
  let digits := rest.takeWhile Number.isDigit
  if digits = [] then nan
  else sign * (Number.Numeral.mk digits none none).value

/-- The longest number at the start of a text, and NaN without one. -/
def parseFloat (s : String) : Float :=
  let (sign, rest) := splitSign (Text.trimStart s.toList)
  if "Infinity".toList.isPrefixOf rest then sign * infinity
  else
    match Number.Numeral.read? rest with
    | none => nan
    | some (numeral, _) =>
      match number? numeral.text with
      | some x => sign * x
      | none => nan

end Sketch.Conversion
