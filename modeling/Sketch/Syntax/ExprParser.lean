import Sketch.Syntax
import Sketch.Syntax.Cursor

/-!
Expressions. Six levels of operators associate to the left; below them stand prefixes, then fields, calls and indices.
Every operand costs one level of nesting, and the levels that are left bound the recursion.
-/

namespace Sketch.Parser

/-- Goes on reading `op operand` pairs behind `left`. Each round reads an operator. -/
def chainFrom (ops : TokenKind → Option BinOp) (operand : Parse Expr) :
    List Token → Expr → Parse Expr
  | [], left => pure left
  | _ :: fuel, left => do
    match (← peek).bind ops with
    | none => pure left
    | some op =>
      let pos ← here
      skip
      let right ← operand
      chainFrom ops operand fuel (.bin op left right pos)

/-- Operands joined by operators of one level. -/
def chain (ops : TokenKind → Option BinOp) (operand : Parse Expr) : Parse Expr := do
  let first ← operand
  withFuel fun fuel => chainFrom ops operand fuel first

/-- The operators of each level, from the loosest to the tightest. -/
def orOps : TokenKind → Option BinOp
  | .keyword .orKw => some .or
  | _ => none

@[inherit_doc orOps]
def andOps : TokenKind → Option BinOp
  | .keyword .andKw => some .and
  | _ => none

@[inherit_doc orOps]
def equalityOps : TokenKind → Option BinOp
  | .punct .eqEq => some .eq
  | .punct .bangEq => some .ne
  | _ => none

@[inherit_doc orOps]
def orderOps : TokenKind → Option BinOp
  | .punct .lt => some .lt
  | .punct .ltEq => some .le
  | .punct .gt => some .gt
  | .punct .gtEq => some .ge
  | _ => none

@[inherit_doc orOps]
def sumOps : TokenKind → Option BinOp
  | .punct .plus => some .add
  | .punct .minus => some .sub
  | _ => none

@[inherit_doc orOps]
def productOps : TokenKind → Option BinOp
  | .punct .star => some .mul
  | .punct .slash => some .div
  | .punct .percent => some .mod
  | _ => none

/-- All levels of operators over a parser for operands. -/
def operators (unary : Parse Expr) : Parse Expr :=
  chain orOps (chain andOps (chain equalityOps (chain orderOps (chain sumOps (chain productOps unary)))))

/-- A key of a map literal: a name, a text or a number. Another token is stepped over. -/
def mapKey : Parse String := fun c =>
  match c.kind with
  | some (.ident name) => .ok name c.advance
  | some (.string text) => .ok text c.advance
  | some (.number value) => .ok (Number.Spelling.sketch.write value) c.advance
  | found => .error ⟨.unexpectedToken .mapKey found, c.pos⟩ c.advance

def mapEntry (expr : Parse Expr) : Parse (String × Expr) := do
  let key ← mapKey
  expect (sym .colon)
  let value ← expr
  pure (key, value)

/-- Arguments and their closing parenthesis. -/
def arguments (expr : Parse Expr) : Parse (List Expr) := do
  let args ← withFuel (commaSeparated .rparen expr)
  expect (sym .rparen)
  pure args

/-- A name, or a call when an opening parenthesis follows on the same line. -/
def nameOrCall (expr : Parse Expr) (name : String) (pos : Pos) : Parse Expr := fun c =>
  if c.kind = some (sym .lparen) ∧ c.pos.line = pos.line then
    (do let args ← arguments expr
        pure (.call name args pos) : Parse Expr) c.advance
  else .ok (.ident name pos) c

/-- The innermost expressions. -/
def primary (expr : Parse Expr) : Parse Expr := do
  let pos ← here
  match ← peek with
  | some (.number value) => skip; pure (.num value pos)
  | some (.bool value) => skip; pure (.bool value pos)
  | some (.string text) => skip; pure (.str text pos)
  | some (.keyword .nilKw) => skip; pure (.nil pos)
  | some (.punct .lparen) =>
    skip
    let e ← expr
    expect (sym .rparen)
    pure e
  | some (.punct .lbracket) =>
    skip
    let items ← withFuel (commaSeparated .rbracket expr)
    expect (sym .rbracket)
    pure (.list items pos)
  | some (.punct .lbrace) =>
    skip
    let entries ← withFuel (commaSeparated .rbrace (mapEntry expr))
    expect (sym .rbrace)
    pure (.map entries pos)
  | some (.ident name) => skip; nameOrCall expr name pos
  | found => failHere (.unexpectedToken .expression found)

/-- Whether an opening bracket follows on the line of the token before it. -/
def indexFollows : Parse Bool := fun c =>
  .ok (decide (c.kind = some (sym .lbracket) ∧ c.pos.line = c.lastLine)) c

/-- Fields, method calls and indices behind `e`. Each round reads at least one token. -/
def postfixFrom (expr : Parse Expr) : List Token → Expr → Parse Expr
  | [], e => pure e
  | _ :: fuel, e => do
    if ← accept (sym .dot) then
      let name ← identifier
      if ← accept (sym .lparen) then
        let args ← arguments expr
        postfixFrom expr fuel (.method e name args e.pos)
      else postfixFrom expr fuel (.field e name e.pos)
    else if ← indexFollows then
      let pos ← here
      skip
      let key ← expr
      expect (sym .rbracket)
      postfixFrom expr fuel (.index e key pos)
    else pure e

/-- An innermost expression with what stands behind it. -/
def operand (expr : Parse Expr) : Parse Expr := do
  let e ← primary expr
  withFuel fun fuel => postfixFrom expr fuel e

/-- An operand with the operators in front of it, when `levels` more levels of nesting are allowed. -/
def unary : (levels : Nat) → Parse Expr
  | 0 => failHere .nestedTooDeep
  | levels + 1 => do
    let pos ← here
    if ← accept (sym .minus) then
      let e ← unary levels
      pure (.un .neg e pos)
    else if ← accept (kw .notKw) then
      let e ← unary levels
      pure (.un .not e pos)
    else operand (operators (unary levels))

/-- An expression, when `levels` more levels of nesting are allowed. -/
def expression (levels : Nat) : Parse Expr := operators (unary levels)

end Sketch.Parser
