import Sketch.Builtin
import Sketch.Cipher
import Sketch.Library.Arguments

/-!
The cipher as library functions. Salt and time of a token are arbitrary.
-/

namespace Sketch

/-- Signs in the salt of a token. -/
def saltLength : Nat := 26

/-- An arbitrary salt, and an arbitrary time in milliseconds that takes eight digits. -/
def rollSalt : Action (String × Nat) :=
  modifyGet fun w =>
    let (rolls, dice) := w.canvas.dice.rolls saltLength
    let (stamp, dice) := dice.roll
    let salt := String.ofList (rolls.map fun r => Base36.sign (r.toNat % 36))
    ((salt, 1700000000000 + stamp.toNat % 1000000000000), { w with canvas := { w.canvas with dice } })

def CipherFn.perform (f : CipherFn) (values : List Value) : Action String := do
  let a : Arguments := ⟨f.name, values⟩
  match f with
  | .encrypt =>
    a.expect 1
    let plain ← a.text 0
    let (salt, millis) ← rollSalt
    return Cipher.encryptWith plain salt millis
  | .decrypt =>
    a.expect 1
    match Cipher.decrypt (← a.text 0) with
    | .ok plain => return plain
    | .error e => Action.fail (.cipher e)

end Sketch
