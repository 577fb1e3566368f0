/-!
Positions in a source text. Lines and columns count from one, and a column counts characters.
-/

namespace Sketch

/-- A place in a source text. -/
structure Pos where
  line : Nat
  column : Nat
deriving DecidableEq, Repr, Inhabited

namespace Pos

/-- The first character of a text. -/
def start : Pos := ⟨1, 1⟩

/-- The place behind a character that stands at `p`. -/
def after (p : Pos) (c : Char) : Pos :=
  if c = '\n' then ⟨p.line + 1, 1⟩ else ⟨p.line, p.column + 1⟩

/-- The place behind a run of characters that starts at `p`. -/
def afterAll (p : Pos) (cs : List Char) : Pos := cs.foldl after p

end Pos

end Sketch
