import Sketch.Syntax.ExprParser

/-!
Statements. A block stands in braces or runs up to a closing keyword. The parsers of this module take those for
statements and expressions one level deeper, and `statement` ties the knot.
-/

namespace Sketch.Parser

/-- What is read behind a symbol, if the symbol comes next. -/
def behind {α : Type} (symbol : TokenKind) (p : Parse α) : Parse (Option α) := do
  if ← accept symbol then some <$> p else pure none

/-- What is read unless a symbol comes next. -/
def unlessNext {α : Type} (symbol : TokenKind) (p : Parse α) : Parse (Option α) := do
  if ← check symbol then pure none else some <$> p

def skipSemicolons : Parse Unit := fun c =>
  let rest := c.ahead.dropWhile (·.kind = sym .semicolon)
  let skipped := c.ahead.takeWhile (·.kind = sym .semicolon)
  .ok () { c with ahead := rest, lastLine := (skipped.getLast?.map (·.pos.line)).getD c.lastLine }

/-- Whether a block of statements ends before a token. -/
def endsBlock : Option TokenKind → Bool
  | none | some (.keyword .endKw) | some (.keyword .elseKw) | some (.keyword .elseifKw) => true
  | _ => false

/-- Statements until `stops` holds of the next token. Each round reads a statement. -/
def statementsUntil (stops : Option TokenKind → Bool) (stmt : Parse Stmt) :
    List Token → Parse (List Stmt)
  | [] => pure []
  | _ :: fuel => do
    skipSemicolons
    if stops (← peek) then pure []
    else
      let first ← stmt
      let rest ← statementsUntil stops stmt fuel
      pure (first :: rest)

def braceBlock (stmt : Parse Stmt) : Parse (List Stmt) := do
  expect (sym .lbrace)
  let body ← withFuel (statementsUntil (fun k => k = none ∨ k = some (sym .rbrace)) stmt)
  expect (sym .rbrace)
  pure body

/-- Statements up to a closing keyword, which is left alone. -/
def keywordBlock (stmt : Parse Stmt) : Parse (List Stmt) :=
  withFuel (statementsUntil endsBlock stmt)

/-- Statements with the `end` that closes them. -/
def endBlock (stmt : Parse Stmt) : Parse (List Stmt) := do
  let body ← keywordBlock stmt
  expect (kw .endKw)
  pure body

/-- The statements of a branch, behind an optional `then`. -/
def thenBlock (stmt : Parse Stmt) : Parse (List Stmt) := do
  let _ ← accept (kw .thenKw)
  keywordBlock stmt

/-- The body of a loop: a block in braces, or statements up to `end` with an optional `do`. -/
def loopBody (stmt : Parse Stmt) : Parse (List Stmt) := do
  if ← check (sym .lbrace) then braceBlock stmt
  else
    let _ ← accept (kw .doKw)
    endBlock stmt

def declaration (expr : Parse Expr) : Parse Stmt := do
  let pos ← here
  expect (kw .varKw)
  let name ← identifier
  let init ← behind (sym .eq) expr
  pure (.declare name init pos)

/-- The operator in an assignment symbol; none for the plain one. -/
def assignOp? : TokenKind → Option (Option BinOp)
  | .punct .eq => some none
  | .punct .plusEq => some (some .add)
  | .punct .minusEq => some (some .sub)
  | .punct .starEq => some (some .mul)
  | .punct .slashEq => some (some .div)
  | _ => none

/-- The place that an expression names, if it can be assigned to. -/
def target? : Expr → Option Target
  | .ident name _ => some (.name name)
  | .index object key _ => some (.index object key)
  | .field object name _ => some (.field object name)
  | _ => none

/-- An expression, or an assignment when an assignment symbol follows it. -/
def evalOrAssign (expr : Parse Expr) : Parse Stmt := do
  let pos ← here
  let e ← expr
  match (← peek).bind assignOp? with
  | none => pure (.eval e)
  | some op =>
    skip
    match target? e with
    | none => failAt .invalidTarget pos
    | some target =>
      let value ← expr
      pure (.assign target op value pos)

/-- Further branches in braces. Each round reads a keyword. -/
def braceBranches (expr : Parse Expr) (stmt : Parse Stmt) :
    List Token → Parse (List (Expr × List Stmt) × Option (List Stmt))
  | [] => pure ([], none)
  | _ :: fuel => do
    if ← accept (kw .elseifKw) then
      let test ← expr
      let body ← braceBlock stmt
      let (rest, otherwise) ← braceBranches expr stmt fuel
      pure ((test, body) :: rest, otherwise)
    else if ← accept (kw .elseKw) then
      if ← accept (kw .ifKw) then
        let test ← expr
        let body ← braceBlock stmt
        let (rest, otherwise) ← braceBranches expr stmt fuel
        pure ((test, body) :: rest, otherwise)
      else
        let body ← braceBlock stmt
        pure ([], some body)
    else pure ([], none)

/-- Further branches up to `end`. Each round reads a keyword. -/
def keywordBranches (expr : Parse Expr) (stmt : Parse Stmt) :
    List Token → Parse (List (Expr × List Stmt) × Option (List Stmt))
  | [] => do
    expect (kw .endKw)
    pure ([], none)
  | _ :: fuel => do
    if ← accept (kw .elseifKw) then
      let test ← expr
      let body ← thenBlock stmt
      let (rest, otherwise) ← keywordBranches expr stmt fuel
      pure ((test, body) :: rest, otherwise)
    else if ← accept (kw .elseKw) then
      let body ← endBlock stmt
      pure ([], some body)
    else
      expect (kw .endKw)
      pure ([], none)

def branching (expr : Parse Expr) (stmt : Parse Stmt) : Parse Stmt := do
  let pos ← here
  expect (kw .ifKw)
  let test ← expr
  if ← check (sym .lbrace) then
    let body ← braceBlock stmt
    let (rest, otherwise) ← withFuel (braceBranches expr stmt)
    pure (.branch ((test, body) :: rest) otherwise pos)
  else
    let body ← thenBlock stmt
    let (rest, otherwise) ← withFuel (keywordBranches expr stmt)
    pure (.branch ((test, body) :: rest) otherwise pos)

/-- A loop that runs while its test holds. -/
def whileLoop (expr : Parse Expr) (stmt : Parse Stmt) : Parse Stmt := do
  let pos ← here
  expect (kw .whileKw)
  let test ← expr
  let body ← loopBody stmt
  pure (.whileDo test body pos)

/-- A loop with three clauses in parentheses, each of which may be empty. -/
def clauseLoop (expr : Parse Expr) (stmt : Parse Stmt) (pos : Pos) : Parse Stmt := do
  expect (sym .lparen)
  let init ← unlessNext (sym .semicolon) stmt
  expect (sym .semicolon)
  let test ← unlessNext (sym .semicolon) expr
  expect (sym .semicolon)
  let step ← unlessNext (sym .rparen) (evalOrAssign expr)
  expect (sym .rparen)
  let body ← loopBody stmt
  pure (.clauses init test step body pos)

/-- A counting loop, or one with three clauses when a parenthesis follows the keyword. -/
def forLoop (expr : Parse Expr) (stmt : Parse Stmt) : Parse Stmt := do
  let pos ← here
  expect (kw .forKw)
  if ← check (sym .lparen) then clauseLoop expr stmt pos
  else
    let var ← identifier
    expect (sym .eq)
    let start ← expr
    expect (sym .comma)
    let stop ← expr
    let step ← behind (sym .comma) expr
    let body ← loopBody stmt
    pure (.count var start stop step body pos)

/-- Whether a `return` on line `line` has no value: the line or the block ends behind it. -/
def returnsNothing (line : Nat) : Parse Bool := fun c =>
  let closes :=
    match c.kind with
    | none | some (.punct .rbrace) | some (.punct .semicolon) | some (.keyword .endKw)
    | some (.keyword .elseKw) | some (.keyword .elseifKw) => true
    | _ => false
  .ok (decide (c.pos.line ≠ line) || closes) c

/-- A `return`, which only a function may hold. -/
def returning (inFunction : Bool) (expr : Parse Expr) : Parse Stmt := do
  let pos ← here
  if !inFunction then failAt .strayReturn pos
  else
    expect (kw .returnKw)
    if ← returnsNothing pos.line then pure (.ret none pos)
    else
      let value ← expr
      pure (.ret (some value) pos)

/-- One statement, given the parsers for what it holds. -/
def statementWith (inFunction : Bool) (expr : Parse Expr) (stmt : Parse Stmt) : Parse Stmt := do
  match ← peek with
  | some (.keyword .varKw) => declaration expr
  | some (.keyword .ifKw) => branching expr stmt
  | some (.keyword .whileKw) => whileLoop expr stmt
  | some (.keyword .forKw) => forLoop expr stmt
  | some (.keyword .returnKw) => returning inFunction expr
  | some (.keyword .functionKw) => failHere .nestedFunction
  | _ => evalOrAssign expr

/-- A statement, when `levels` more levels of nesting are allowed. -/
def statement (inFunction : Bool) : (levels : Nat) → Parse Stmt
  | 0 => failHere .nestedTooDeep
  | levels + 1 => statementWith inFunction (expression levels) (statement inFunction levels)

end Sketch.Parser
