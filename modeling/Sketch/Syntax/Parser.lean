import Sketch.Syntax.StmtParser

/-!
Whole programs. Behind a mistake the cursor moves on to a token that looks like the start or the end of a statement,
and all mistakes are reported together.
-/

namespace Sketch.Parser

def parameter : Parse Param := do
  let pos ← here
  let name ← identifier
  pure ⟨name, pos⟩

/-- The body of a function: a block in braces, or statements up to `end`. -/
def functionBody : Parse (List Stmt) := do
  let stmt := statement true maxNesting
  if ← check (sym .lbrace) then braceBlock stmt else endBlock stmt

/-- A declaration behind its optional keyword. -/
def functionRest (pos : Pos) : Parse FnDef := do
  let name ← identifier
  expect (sym .lparen)
  let params ← withFuel (commaSeparated .rparen parameter)
  expect (sym .rparen)
  let body ← functionBody
  pure ⟨name, params, body, pos⟩

def functionDef : Parse FnDef := do
  let pos ← here
  expect (kw .functionKw)
  functionRest pos

def shorthandDef : Parse FnDef := do
  let pos ← here
  functionRest pos

/-- Whether parameters in the form `, name` go on up to `) {`. -/
def closesParameters : List Token → Bool
  | ⟨.punct .rparen, _⟩ :: ⟨.punct .lbrace, _⟩ :: _ => true
  | ⟨.punct .comma, _⟩ :: ⟨.ident _, _⟩ :: rest => closesParameters rest
  | _ => false

/-- Whether tokens start with `name(a, b) {`, which declares a function without the keyword. -/
def isShorthand : List Token → Bool
  | ⟨.ident _, _⟩ :: ⟨.punct .lparen, _⟩ :: ⟨.ident _, _⟩ :: rest => closesParameters rest
  | ⟨.ident _, _⟩ :: ⟨.punct .lparen, _⟩ :: ⟨.punct .rparen, _⟩ :: ⟨.punct .lbrace, _⟩ :: _ => true
  | _ => false

/-- Whether reading on after a mistake starts at this token. -/
def isRestart : TokenKind → Bool
  | .keyword .functionKw | .keyword .varKw | .keyword .ifKw | .keyword .whileKw | .keyword .forKw
  | .keyword .returnKw | .keyword .endKw | .punct .rbrace => true
  | _ => false

/-- Moves to the next token at which reading can start again. -/
def Cursor.recover (c : Cursor) : Cursor :=
  let skipped := c.ahead.takeWhile (!isRestart ·.kind)
  { c with
    ahead := c.ahead.dropWhile (!isRestart ·.kind)
    lastLine := (skipped.getLast?.map (·.pos.line)).getD c.lastLine }

/-- What one round at the top level yields. -/
inductive Round where
  | item (i : Item)
  | mistake (d : Diagnostic)
  | nothing
deriving Inhabited

/-- Runs a parser for an item; after a mistake the cursor moves to the next restart. -/
def attempt {α : Type} (p : Parse α) (wrap : α → Item) (c : Cursor) : Round × Cursor :=
  match p c with
  | .ok a c' => (.item (wrap a), c')
  | .error d c' => (.mistake d, c'.recover)

/-- One round: a separator, a function or a statement. Behind a mistake, stray closers are stepped over. -/
def round (hadMistake : Bool) (c : Cursor) : Round × Cursor :=
  match c.kind with
  | none => (.nothing, c)
  | some (.punct .semicolon) => (.nothing, c.advance)
  | some (.keyword .functionKw) => attempt functionDef .function c
  | some kind =>
    if isShorthand c.ahead then attempt shorthandDef .function c
    else if hadMistake ∧ (kind = sym .rbrace ∨ kind = kw .endKw) then (.nothing, c.advance)
    else attempt (statement false maxNesting) .stmt c

/-- Items and mistakes of the whole stream. A round that reads nothing steps over one token. -/
def rounds : List Token → Bool → Cursor → List Item × List Diagnostic
  | [], _, _ => ([], [])
  | _ :: fuel, hadMistake, c =>
    if c.ahead.isEmpty then ([], [])
    else
      let (outcome, c') := round hadMistake c
      let next := if c'.ahead.length = c.ahead.length then c'.advance else c'
      match outcome with
      | .item i =>
        let (items, mistakes) := rounds fuel hadMistake next
        (i :: items, mistakes)
      | .mistake d =>
        let (items, mistakes) := rounds fuel true next
        (items, d :: mistakes)
      | .nothing => rounds fuel hadMistake next

/-- The program of a token stream, or all mistakes in it. -/
def parse (s : TokenStream) : Except (List Diagnostic) Program :=
  let (items, mistakes) := rounds s.tokens false (.ofStream s)
  if mistakes.isEmpty then .ok ⟨items⟩ else .error mistakes

end Sketch.Parser
