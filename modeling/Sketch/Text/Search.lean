/-!
Looking for a piece of text inside another.
-/

namespace Sketch.Text

/-- What follows `piece` when `cs` starts with it. -/
def dropPiece? (piece cs : List Char) : Option (List Char) :=
  if piece.isPrefixOf cs then some (cs.drop piece.length) else none

/-- The text before and behind the first occurrence of `piece`. -/
def splitOnce (piece : List Char) : List Char → Option (List Char × List Char)
  | [] => if piece.isEmpty then some ([], []) else none
  | c :: cs =>
    match dropPiece? piece (c :: cs) with
    | some after => some ([], after)
    | none => (splitOnce piece cs).map fun (before, after) => (c :: before, after)

/-- Whether `piece` occurs somewhere in `cs`. -/
def occursIn (piece cs : List Char) : Bool := (splitOnce piece cs).isSome

/-- What follows each occurrence of `piece`, also of overlapping ones. -/
def afterEach (piece : List Char) : List Char → List (List Char)
  | [] => if piece.isEmpty then [[]] else []
  | c :: cs =>
    match dropPiece? piece (c :: cs) with
    | some after => after :: afterEach piece cs
    | none => afterEach piece cs

/-- The characters before and behind each occurrence of `piece`. The search goes on behind an occurrence, `skip`
    characters further. An empty piece occurs between any two characters. -/
def neighbours (piece : List Char) (before : Option Char) (skip : Nat) :
    List Char → List (Option Char × Option Char)
  | [] => if piece.isEmpty then [(before, none)] else []
  | c :: cs =>
    match skip with
    | skip + 1 => neighbours piece (some c) skip cs
    | 0 =>
      match dropPiece? piece (c :: cs) with
      | some after => (before, after.head?) :: neighbours piece (some c) (piece.length - 1) cs
      | none => neighbours piece (some c) 0 cs

end Sketch.Text
