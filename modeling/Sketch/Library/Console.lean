import Sketch.Builtin
import Sketch.Library.Arguments
import Sketch.Value.Conversion

/-!
Console output, conversions, and the two calls that pause a sketch.
-/

namespace Sketch

def ConsoleFn.perform (f : ConsoleFn) (values : List Value) : Action Value := do
  let a : Arguments := ⟨f.name, values⟩
  match f with
  | .print =>
    let texts ← values.mapM World.text
    World.onCanvas (·.say (.plain .info (" ".intercalate texts)))
    return .nil
  | .textLong | .textShort =>
    a.expect 1
    return .str (← a.text 0)
  | .numberLong | .numberShort =>
    a.expect 1
    return .num (Conversion.toNumber (a.get 0))
  | .parseInt =>
    a.expect 1
    return .num (Conversion.parseInt (← a.text 0))
  | .parseFloat =>
    a.expect 1
    return .num (Conversion.parseFloat (← a.text 0))

/-- What a sketch waits for. -/
inductive Pause where
  | delay (nanoseconds : Nat)
  | prompt (text : String)
deriving DecidableEq, Repr, Inhabited

/-- What a call that pauses waits for. A delay that no clock can hold is a crash. -/
def PauseFn.pause (f : PauseFn) (values : List Value) : Action Pause := do
  let a : Arguments := ⟨f.name, values⟩
  match f with
  | .delay =>
    a.expect 1
    let seconds ← a.number 0
    if seconds.isFinite && 0.0 < seconds then
      match nanoseconds? seconds with
      | some n => return .delay n
      | none => throw .crash
    else return .delay 0
  | .input =>
    match a.get 0 with
    | .nil => return .prompt ""
    | v => return .prompt (← World.text v)

end Sketch
