import Sketch.Number.Numeral
import Sketch.Text.Alphanumeric
import Sketch.Text.Blank
import Sketch.Text.Search

/-!
Finding the line that an error message is about. The clues are tried in turn: a line number or a position in the
message, a place in the stack, and then the source itself.
-/

namespace Sketch.ErrorLine

/-- A name cannot be cut out of a message, because its start is taken to be inside a character. -/
inductive CutError where
  | insideCharacter
deriving DecidableEq, Repr, Inhabited

/-- The largest number that a line or a position can be. -/
def maxNumber : Nat := Nat.pow 2 64 - 1

/-- The number that digits stand for, if there are any and it is not too large. -/
def number? (digits : List Char) : Option Nat :=
  let n := Number.digitsValue digits
  if digits = [] ∨ maxNumber < n then none else some n

/-- Numbers that follow `word`, with colons and blanks between. Capitals count as small letters. -/
def numberAfter (word text : List Char) : Option Nat :=
  (Text.afterEach word (text.map Char.toLower)).findSome? fun after =>
    let rest := after.dropWhile fun c => c = ':' || Text.isBlank c
    if rest.length = after.length then none else number? (rest.takeWhile Number.isDigit)

/-- Bytes of a character in UTF-8. -/
def byteSize (c : Char) : Nat := c.utf8Size

/-- The longest start of `cs` that fits into `bytes` bytes. -/
def takeBytes : Nat → List Char → List Char
  | _, [] => []
  | bytes, c :: cs => if byteSize c ≤ bytes then c :: takeBytes (bytes - byteSize c) cs else []

def byteLength (cs : List Char) : Nat := cs.foldr (fun c n => byteSize c + n) 0

/-- The line of a position that counts bytes. -/
def lineOfPosition (source : List Char) (bytes : Nat) : Nat :=
  (takeBytes bytes source).count '\n' + 1

/-- The line in the first `:line:column` of a stack entry. -/
def stackLine : List Char → Option Nat
  | [] => none
  | c :: rest =>
    let line := rest.takeWhile Number.isDigit
    match rest.dropWhile Number.isDigit with
    | ':' :: d :: _ =>
      if c = ':' ∧ line ≠ [] ∧ Number.isDigit d then number? line else stackLine rest
    | _ => stackLine rest

/-- The name that a message calls undefined. -/
def undefinedName (message : List Char) : Except CutError (Option (List Char)) :=
  let quotedAfter (start : String) : Option (Option (List Char)) :=
    (Text.splitOnce start.toList message).map fun (_, after) =>
      (Text.splitOnce ['`'] after).map (·.1)
  match quotedAfter "undefined variable `", quotedAfter "undefined function `" with
  | some found, _ => .ok found
  | none, some found => .ok found
  | none, none =>
    match Text.splitOnce " is not defined".toList message with
    | none => .ok none
    | some (before, _) =>
      let backwards := before.reverse.dropWhile (· = '\'')
      let name := (backwards.takeWhile Text.isWordChar).reverse
      match (backwards.dropWhile Text.isWordChar).head? with
      | some c =>
        if byteSize c = 1 then .ok (if name = [] then none else some name)
        else .error .insideCharacter
      | none => .ok (if name = [] then none else some name)

/-- Whether a line is only a comment. -/
def isComment (line : List Char) : Bool :=
  ['/', '/'].isPrefixOf (Text.trimStart line) || ['-', '-'].isPrefixOf (Text.trimStart line)

/-- A line up to its comment. -/
def codePart : List Char → List Char
  | '/' :: '/' :: _ => []
  | '-' :: '-' :: _ => []
  | c :: rest => c :: codePart rest
  | [] => []

/-- Whether `word` stands in a line with no word character on either side. -/
def containsWord (line word : List Char) : Bool :=
  (Text.neighbours word none 0 line).any fun (before, after) =>
    !(before.any Text.isWordChar) && !(after.any Text.isWordChar)

/-- The number of the first line that satisfies `p`. -/
def firstLine? (p : List Char → Bool) (lines : List (List Char)) : Option Nat :=
  (lines.findIdx? p).map (· + 1)

/-- The depth of brackets behind `cs`, or none where more are closed than were opened. -/
def bracketDepth (depth : Nat) : List Char → Option Nat
  | [] => some depth
  | c :: rest =>
    if c = '(' ∨ c = '[' ∨ c = '\x7b' then bracketDepth (depth + 1) rest
    else if c = ')' ∨ c = ']' ∨ c = '\x7d' then
      match depth with
      | 0 => none
      | depth + 1 => bracketDepth depth rest
    else bracketDepth depth rest

/-- The first line that closes a bracket which was not opened. Lines are counted from `n`. -/
def unbalancedLine (n depth : Nat) : List (List Char) → Option Nat
  | [] => none
  | line :: rest =>
    match bracketDepth depth (codePart line) with
    | none => some n
    | some depth => unbalancedLine (n + 1) depth rest

/-- Whether code starts with a function that has no parameters and no body. -/
def isBareFunction (code : List Char) : Bool :=
  match Text.dropPiece? "function".toList code with
  | none => false
  | some rest =>
    (match rest with
      | c :: _ => Text.isBlank c
      | [] => true)
    && !code.contains '(' && !code.contains '\x7b'

/-- Whether a line starts a function without parameters and body. -/
def isDanglingFunction (line : List Char) : Bool := isBareFunction (Text.trimStart (codePart line))

/-- What the source alone tells. -/
def scanSource (lines : List (List Char)) : Option Nat :=
  (unbalancedLine 1 0 lines).or (firstLine? isDanglingFunction lines)

/-- The line that an error is about. A stack counts `offset` lines in front of the sketch. -/
def locate (message stack source : String) (offset : Nat) : Except CutError (Option Nat) :=
  let text := message.toList
  let code := source.toList
  let lines := Text.splitLines code
  let inSource (n : Nat) : Bool := 1 ≤ n && n ≤ lines.length
  match (numberAfter "line".toList text).filter inSource with
  | some n => .ok (some n)
  | none =>
    match (numberAfter "position".toList text).filter (· < byteLength code) with
    | some p => .ok (some (lineOfPosition code p))
    | none =>
      let marked := (Text.lines stack.toList).findSome? stackLine
      match marked.bind fun n => if offset ≤ n ∧ inSource (n - offset) then some (n - offset) else none with
      | some n => .ok (some n)
      | none => do
        let named := (← undefinedName text).bind fun name =>
          firstLine? (fun line => !isComment line && containsWord line name) lines
        pure (named.or (scanSource lines))

end Sketch.ErrorLine
