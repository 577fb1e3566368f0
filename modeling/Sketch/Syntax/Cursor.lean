import Sketch.Diagnostic

/-!
The parser's place in a token stream, and the small steps that all else is made of. A step that fails leaves the
cursor where it stood.
-/

namespace Sketch.Parser

/-- What the parser has in front of it, and the line of the token it read last. -/
structure Cursor where
  ahead : List Token
  stop : Pos
  lastLine : Nat
deriving DecidableEq, Repr, Inhabited

namespace Cursor

/-- A cursor in front of a whole stream. -/
def ofStream (s : TokenStream) : Cursor := ⟨s.tokens, s.stop, 0⟩

/-- The next token's kind, none at the end. -/
def kind (c : Cursor) : Option TokenKind := c.ahead.head?.map (·.kind)

/-- The next token's place, or the place of the end. -/
def pos (c : Cursor) : Pos := (c.ahead.head?.map (·.pos)).getD c.stop

/-- Steps over one token. The end is never passed. -/
def advance (c : Cursor) : Cursor :=
  match c.ahead with
  | t :: rest => { c with ahead := rest, lastLine := t.pos.line }
  | [] => c

end Cursor

/-- A parser: it moves the cursor, and either yields a value or a diagnostic. -/
abbrev Parse (α : Type) := EStateM Diagnostic Cursor α

def failHere {α : Type} (fault : Fault) : Parse α := fun c => .error ⟨fault, c.pos⟩ c

def failAt {α : Type} (fault : Fault) (pos : Pos) : Parse α := fun c => .error ⟨fault, pos⟩ c

def here : Parse Pos := fun c => .ok c.pos c

def peek : Parse (Option TokenKind) := fun c => .ok c.kind c

def skip : Parse Unit := fun c => .ok () c.advance

/-- Whether a given keyword or symbol comes next. -/
def check (kind : TokenKind) : Parse Bool := fun c => .ok (decide (c.kind = some kind)) c

/-- Steps over a given keyword or symbol if it comes next, and says whether it did. -/
def accept (kind : TokenKind) : Parse Bool := fun c =>
  if c.kind = some kind then .ok true c.advance else .ok false c

/-- Steps over a given keyword or symbol, which must come next. -/
def expect (kind : TokenKind) : Parse Unit := fun c =>
  if c.kind = some kind then .ok () c.advance
  else .error ⟨.missingToken kind c.kind, c.pos⟩ c

/-- Reads a name. A token that is none is stepped over as well. -/
def identifier : Parse String := fun c =>
  match c.kind with
  | some (.ident name) => .ok name c.advance
  | found => .error ⟨.unexpectedToken .identifier found, c.pos⟩ c.advance

abbrev sym (p : Punct) : TokenKind := .punct p

abbrev kw (k : Keyword) : TokenKind := .keyword k

/-- Items separated by commas up to a closing symbol, which is left alone. A comma may stand in front of it. -/
def commaSeparated {α : Type} (close : Punct) (item : Parse α) :
    List Token → Parse (List α)
  | [] => pure []
  | _ :: fuel => do
    let next ← peek
    if next = some (sym close) ∨ next = none then pure []
    else
      let first ← item
      if ← accept (sym .comma) then
        let rest ← commaSeparated close item fuel
        pure (first :: rest)
      else pure [first]

/-- Runs a loop with at most one round for each token ahead. -/
def withFuel {α : Type} (loop : List Token → Parse α) : Parse α := fun c => loop c.ahead c

end Sketch.Parser
