import Sketch.Text.Blank
import Sketch.Token.Lexer

/-!
Re-indenting a sketch. Only the blanks at the ends of lines change. The depth of a line follows from the brackets and
block keywords of the lines before it; strings and comments are passed over.
-/

namespace Sketch.Layout

/-- What counts for the depth of a line. -/
inductive Mark where
  | opener (bracket : Char)
  | closer (bracket : Char)
  | word (text : String)
deriving DecidableEq, Repr, Inhabited

/-- A mark, and whether nothing but closing brackets stands before it on its line. -/
structure Placed where
  mark : Mark
  leading : Bool
deriving DecidableEq, Repr, Inhabited

/-- What follows a string literal, given what follows its opening quote. -/
def afterString (quote : Char) : List Char → List Char
  | [] => []
  | [_] => []
  | c :: d :: rest =>
    if c = '\\' then afterString quote rest
    else if c = quote then d :: rest
    else afterString quote (d :: rest)

/-- What follows the end of a comment, if it ends in `cs`. -/
def afterComment : List Char → Option (List Char)
  | [] => none
  | '*' :: '/' :: rest => some rest
  | _ :: rest => afterComment rest

/-- The blanks of a line, which do not stop a closing bracket from leading it. -/
def isLineSpace (c : Char) : Bool :=
  c = ' ' || c = '\t' || c = '\n' || c = '\r' || c.toNat = 0x0c

theorem afterString_length_le (quote : Char) (cs : List Char) :
    (afterString quote cs).length ≤ cs.length := by
  fun_induction afterString quote cs <;> simp_all <;> omega

theorem afterComment_length_lt {cs rest : List Char} (h : afterComment cs = some rest) :
    rest.length < cs.length := by
  fun_induction afterComment cs with
  | case1 => simp at h
  | case2 rest' =>
    obtain rfl := Option.some.inj h
    simp only [List.length_cons]
    omega
  | case3 c cs' _ ih =>
    have := ih h
    simp only [List.length_cons]
    omega

/-- The marks of a line, and whether a comment is still open behind it. -/
def marks (inComment leading : Bool) (cs : List Char) : List Placed × Bool :=
  if inComment then
    match h : afterComment cs with
    | none => ([], true)
    | some rest =>
      have := afterComment_length_lt h
      marks false leading rest
  else
    match cs with
    | [] => ([], false)
    | c :: rest =>
      if (c = '/' ∧ rest.head? = some '/') ∨ (c = '-' ∧ rest.head? = some '-') then ([], false)
      else if c = '/' ∧ rest.head? = some '*' then
        have : (rest.drop 1).length < (c :: rest).length := by
          simp only [List.length_drop, List.length_cons]
          omega
        marks true leading (rest.drop 1)
      else if c = '"' ∨ c = '\'' then
        have := afterString_length_le c rest
        marks false false (afterString c rest)
      else if c = '\x7b' ∨ c = '[' ∨ c = '(' then
        let (found, comment) := marks false false rest
        (⟨.opener c, leading⟩ :: found, comment)
      else if c = '\x7d' ∨ c = ']' ∨ c = ')' then
        let (found, comment) := marks false leading rest
        (⟨.closer c, leading⟩ :: found, comment)
      else if Lexer.isNameStart c then
        have : (rest.dropWhile Lexer.isNamePart).length ≤ rest.length :=
          (List.dropWhile_sublist Lexer.isNamePart).length_le
        let word := c :: rest.takeWhile Lexer.isNamePart
        let (found, comment) := marks false false (rest.dropWhile Lexer.isNamePart)
        (⟨.word (String.ofList word), leading⟩ :: found, comment)
      else marks false (leading && isLineSpace c) rest
termination_by cs.length
decreasing_by
  · exact this
  · exact this
  · exact Nat.lt_succ_of_le this
  · exact Nat.lt_succ_self _
  · exact Nat.lt_succ_self _
  · exact Nat.lt_succ_of_le this
  · exact Nat.lt_succ_self _

/-- What a line does to the depth: how far it stands back itself, and the change for the lines after it. -/
structure Shape where
  dedent : Nat
  delta : Int
deriving DecidableEq, Repr, Inhabited

/-- Whether a line holds a brace, which makes its keywords belong to a block in braces. -/
def hasBrace (ms : List Placed) : Bool :=
  ms.any fun m => m.mark = .opener '\x7b' || m.mark = .closer '\x7d'

def words (ms : List Placed) : List String :=
  ms.filterMap fun m =>
    match m.mark with
    | .word w => some w
    | _ => none

/-- The change of depth by one mark. Without a brace, `end` closes a function, and an `elseif` the branch before it.
    -/
def Mark.delta (braces : Bool) : Mark → Int
  | .opener _ => 1
  | .closer _ => -1
  | .word w =>
    if w = "then" ∨ w = "do" then 1
    else if w = "end" then -1
    else if w = "function" ∧ !braces then 1
    else if w = "elseif" ∧ !braces then -1
    else 0

/-- How far a line stands back: by the closers that lead it, and by a keyword that goes on with a chain. -/
def dedent (ms : List Placed) : Nat :=
  let closers := ms.countP fun m =>
    m.leading &&
      match m.mark with
      | .closer _ => true
      | .word w => w = "end"
      | .opener _ => false
  let next :=
    match (words ms).head? with
    | some w =>
      if hasBrace ms then 0
      else if w = "elseif" then 1
      else if w = "else" ∧ closers = 0 then 1
      else 0
    | none => 0
  closers + next

def shape (ms : List Placed) : Shape :=
  { dedent := dedent ms
    delta := ms.foldr (fun m delta => m.mark.delta (hasBrace ms) + delta) 0 }

/-- Two blanks for each level. -/
def indent (levels : Nat) : List Char := List.replicate (2 * levels) ' '

/-- Lines at their depth, given the depth before them and whether a comment is open. Blank lines become empty. -/
def formatLines (depth : Nat) (inComment : Bool) : List (List Char) → List (List Char)
  | [] => []
  | raw :: rest =>
    let line := Text.trim raw
    if line = [] then [] :: formatLines depth inComment rest
    else
      let (ms, comment) := marks inComment true line
      let s := shape ms
      (indent (depth - s.dedent) ++ line) :: formatLines ((depth : Int) + s.delta).toNat comment rest

def joinLines : List (List Char) → List Char
  | [] => []
  | [line] => line
  | line :: rest => line ++ '\n' :: joinLines rest

/-- A sketch with its lines at their depth. A final newline stays. -/
def format (source : String) : String :=
  let cs := source.toList
  let out := joinLines (formatLines 0 false (Text.lines cs))
  String.ofList (if cs.getLast? = some '\n' then out ++ ['\n'] else out)

end Sketch.Layout
