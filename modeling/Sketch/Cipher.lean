import Sketch.Cipher.Base36
import Sketch.Cipher.Base64
import Sketch.Failure
import Sketch.Text.Search

/-!
Obfuscated texts. A token is `ENC:salt:time:payload`; the payload is masked with a key made of salt and time and with
the places of its bytes.
-/

namespace Sketch.Cipher

/-- How a token begins. -/
def head : List Char := "ENC:".toList

/-- The fixed part of every key. -/
def secret : String := "SECRET_KEY_2024"

/-- The key of a salt and a time. -/
def key (salt : String) (time : List Char) : List UInt8 :=
  (salt ++ String.ofList time ++ secret).toUTF8.toList

/-- The mask of the byte at a place. -/
def maskAt (key : Array UInt8) (i : Nat) : UInt8 :=
  key.getD (i % key.size) 0 ^^^ UInt8.ofNat (i * 7 + 13)

/-- Masks bytes. Twice is as good as never. -/
def mask (key : List UInt8) (bytes : List UInt8) : List UInt8 :=
  bytes.mapIdx fun i b => b ^^^ maskAt key.toArray i

/-- The text of bytes, if they are the form of one. -/
def textOfBytes? (bytes : List UInt8) : Option String := String.fromUTF8? ⟨bytes.toArray⟩

/-- The token of a text. -/
def encryptWith (plain salt : String) (millis : Nat) : String :=
  let time := Base36.write millis
  let payload := mask (key salt time) plain.toUTF8.toList
  String.ofList (head ++ Base64.encode Base64.urlSafe false salt.toUTF8.toList ++ ':' :: time
    ++ ':' :: Base64.encode Base64.standard true payload)

/-- The parts of a text between colons. -/
def fields : List Char → List (List Char)
  | [] => [[]]
  | c :: rest =>
    if c = ':' then [] :: fields rest
    else
      match fields rest with
      | part :: parts => (c :: part) :: parts
      | [] => [[c]]

/-- The text in the body of a token, whose key follows from the time as it is written anew. -/
def open? : List (List Char) → Option String
  | [salt, time, payload] => do
    let salt ← textOfBytes? (← Base64.decode? Base64.urlSafe salt)
    let time := Base36.write (← Base36.read? time)
    let payload ← Base64.decode? Base64.standard payload
    textOfBytes? (mask (key salt time) payload)
  | _ => none

def decrypt (token : String) : Except CipherError String :=
  match Text.dropPiece? head token.toList with
  | none => .error .missingHead
  | some body =>
    match open? (fields body) with
    | none => .error .malformed
    | some plain => .ok plain

end Sketch.Cipher
