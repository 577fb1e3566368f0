import Sketch.Proofs.Syntax.Operators

/-!
A parser that keeps its own books: an index into the list of tokens, and counts of the levels and functions that it is
in. Nothing but its own care keeps it within the list and its counts right.
-/

namespace Sketch

/-- An entry of a list of tokens: a token, or the end, which has no kind. -/
structure Mark where
  kind : Option TokenKind
  pos : Pos
deriving DecidableEq, Repr, Inhabited

/-- The list of tokens, with the end as its last entry and nowhere else. -/
def TokenStream.marks (s : TokenStream) : List Mark :=
  s.tokens.map (fun t => ⟨some t.kind, t.pos⟩) ++ [⟨none, s.stop⟩]

/-- The parser is given by the list that it reads. -/
abbrev IndexParser := TokenStream

namespace IndexParser

open Sketch.Parser (sym kw tierOps endsBlock assignOp? target? isRestart Round)

/-- What the parser keeps in its books. -/
structure Books where
  index : Nat
  nesting : Nat
  functions : Nat
deriving DecidableEq, Repr, Inhabited

/-- Why the parser breaks off. -/
inductive Halt where
  | mistake (d : Diagnostic)
  /-- It looked behind the end of the list. -/
  | outside
deriving DecidableEq, Repr, Inhabited

/-- What the parser does with its books. It may go on without end. -/
abbrev Read (α : Type) := ExceptT Halt (StateT Books Option) α

/-- Does something with changed books, and changes them again afterwards. -/
def between {α : Type} (enter leave : Books → Books) (p : Read α) : Read α :=
  fun b => (p (enter b)).map fun r => (r.1, leave r.2)

variable (s : IndexParser)

/-! ### Small steps -/

/-- The entry at an index. -/
def look (i : Nat) : Read Mark :=
  match s.marks[i]? with
  | some m => pure m
  | none => throw .outside

/-- The entry that comes next. -/
def mark : Read Mark := do look s (← get).index

def peek : Read (Option TokenKind) := return (← mark s).kind

def here : Read Pos := return (← mark s).pos

/-- The line of the entry before the next one. -/
def lastLine : Read Nat := do
  match (← get).index with
  | 0 => pure 0
  | i + 1 => return (← look s i).pos.line

def failAt {α : Type} (fault : Fault) (pos : Pos) : Read α := throw (.mistake ⟨fault, pos⟩)

def failHere {α : Type} (fault : Fault) : Read α := do failAt fault (← here s)

/-- Moves on by one entry, unless it is the last one. -/
def advance : Read Mark := do
  let m ← mark s
  modify fun b => if b.index + 1 < s.marks.length then { b with index := b.index + 1 } else b
  pure m

def skip : Read Unit := do
  let _ ← advance s

def check (kind : TokenKind) : Read Bool := return decide ((← peek s) = some kind)

def accept (kind : TokenKind) : Read Bool := do
  if ← check s kind then
    skip s
    pure true
  else pure false

def expect (kind : TokenKind) : Read Unit := do
  if ← check s kind then skip s
  else failHere s (.missingToken kind (← peek s))

/-- Moves on by one entry, which must be a word of a certain sort. -/
def word {α : Type} (sort : Option TokenKind → Except Fault α) : Read α := do
  let m ← advance s
  match sort m.kind with
  | .ok a => pure a
  | .error fault => failAt fault m.pos

def name : Option TokenKind → Except Fault String
  | some (.ident name) => .ok name
  | found => .error (.unexpectedToken .identifier found)

def key : Option TokenKind → Except Fault String
  | some (.ident name) => .ok name
  | some (.string text) => .ok text
  | some (.number value) => .ok (Number.Spelling.sketch.write value)
  | found => .error (.unexpectedToken .mapKey found)

def identifier : Read String := word s name

def mapKey : Read String := word s key

/-- Whether an opening bracket follows on the line of the entry before it. -/
def indexFollows : Read Bool := do
  let m ← mark s
  return decide (m.kind = some (sym .lbracket) ∧ m.pos.line = (← lastLine s))

/-- Whether an opening parenthesis follows on a line. -/
def callFollows (line : Nat) : Read Bool := do
  let m ← mark s
  return decide (m.kind = some (sym .lparen) ∧ m.pos.line = line)

/-- Moves on as long as tokens of some kinds come. -/
def pass (s : IndexParser) (kinds : TokenKind → Bool) : Read Unit := do
  if (← peek s).any kinds then
    skip s
    s |>.pass kinds
  else pure ()
partial_fixpoint

def skipSemicolons : Read Unit := pass s fun kind => kind = sym .semicolon

/-! ### Expressions -/

def Books.nest (b : Books) : Books := { b with nesting := b.nesting + 1 }

def Books.unnest (b : Books) : Books := { b with nesting := b.nesting - 1 }

mutual

/-- Operands joined by operators of a tier. -/
def tier (s : IndexParser) (n : Nat) : Read Expr := do
  if n < 6 then
    let first ← s |>.tier (n + 1)
    s |>.chain n first
  else s |>.unary
partial_fixpoint

def chain (s : IndexParser) (n : Nat) (left : Expr) : Read Expr := do
  match (← peek s).bind (tierOps n) with
  | none => pure left
  | some op =>
    let pos ← here s
    skip s
    let right ← s |>.tier (n + 1)
    s |>.chain n (.bin op left right pos)
partial_fixpoint

def unary (s : IndexParser) : Read Expr := fun b =>
  if maxNesting ≤ b.nesting then failHere s .nestedTooDeep b
  else do
    let r ← s |>.signed b.nest
    some (r.1, r.2.unnest)
partial_fixpoint

def signed (s : IndexParser) : Read Expr := do
  let pos ← here s
  if ← accept s (sym .minus) then
    let e ← s |>.unary
    pure (.un .neg e pos)
  else if ← accept s (kw .notKw) then
    let e ← s |>.unary
    pure (.un .not e pos)
  else
    let e ← s |>.primary
    s |>.trailers e
partial_fixpoint

/-- Fields, method calls and indices behind `e`. -/
def trailers (s : IndexParser) (e : Expr) : Read Expr := do
  if ← accept s (sym .dot) then
    let name ← identifier s
    if ← accept s (sym .lparen) then
      let args ← s |>.arguments
      s |>.trailers (.method e name args e.pos)
    else s |>.trailers (.field e name e.pos)
  else if ← indexFollows s then
    let pos ← here s
    skip s
    let key ← s |>.tier 0
    expect s (sym .rbracket)
    s |>.trailers (.index e key pos)
  else pure e
partial_fixpoint

def primary (s : IndexParser) : Read Expr := do
  let pos ← here s
  match ← peek s with
  | some (.number value) => skip s; pure (.num value pos)
  | some (.bool value) => skip s; pure (.bool value pos)
  | some (.string text) => skip s; pure (.str text pos)
  | some (.keyword .nilKw) => skip s; pure (.nil pos)
  | some (.punct .lparen) =>
    skip s
    let e ← s |>.tier 0
    expect s (sym .rparen)
    pure e
  | some (.punct .lbracket) =>
    skip s
    let members ← s |>.items .rbracket
    expect s (sym .rbracket)
    pure (.list members pos)
  | some (.punct .lbrace) =>
    skip s
    let members ← s |>.entries
    expect s (sym .rbrace)
    pure (.map members pos)
  | some (.ident name) => skip s; s |>.nameOrCall name pos
  | found => failHere s (.unexpectedToken .expression found)
partial_fixpoint

def nameOrCall (s : IndexParser) (name : String) (pos : Pos) : Read Expr := do
  if ← callFollows s pos.line then
    skip s
    let args ← s |>.arguments
    pure (.call name args pos)
  else pure (.ident name pos)
partial_fixpoint

def arguments (s : IndexParser) : Read (List Expr) := do
  let args ← s |>.items .rparen
  expect s (sym .rparen)
  pure args
partial_fixpoint

def items (s : IndexParser) (close : Punct) : Read (List Expr) := do
  let next ← peek s
  if next = some (sym close) ∨ next = none then pure []
  else
    let first ← s |>.tier 0
    if ← accept s (sym .comma) then
      let rest ← s |>.items close
      pure (first :: rest)
    else pure [first]
partial_fixpoint

def entry (s : IndexParser) : Read (String × Expr) := do
  let key ← mapKey s
  expect s (sym .colon)
  let value ← s |>.tier 0
  pure (key, value)
partial_fixpoint

def entries (s : IndexParser) : Read (List (String × Expr)) := do
  let next ← peek s
  if next = some (sym .rbrace) ∨ next = none then pure []
  else
    let first ← s |>.entry
    if ← accept s (sym .comma) then
      let rest ← s |>.entries
      pure (first :: rest)
    else pure [first]
partial_fixpoint

end

def expression : Read Expr := tier s 0

/-! ### Statements -/

def behind {α : Type} (symbol : TokenKind) (p : Read α) : Read (Option α) := do
  if ← accept s symbol then
    let a ← p
    pure (some a)
  else pure none

def unlessNext {α : Type} (symbol : TokenKind) (p : Read α) : Read (Option α) := do
  if ← check s symbol then pure none
  else
    let a ← p
    pure (some a)

def declaration : Read Stmt := do
  let pos ← here s
  expect s (kw .varKw)
  let name ← identifier s
  let init ← behind s (sym .eq) (expression s)
  pure (.declare name init pos)

def evalOrAssign : Read Stmt := do
  let pos ← here s
  let e ← expression s
  match (← peek s).bind assignOp? with
  | none => pure (.eval e)
  | some op =>
    skip s
    match target? e with
    | none => failAt .invalidTarget pos
    | some target =>
      let value ← expression s
      pure (.assign target op value pos)

/-- Whether a `return` on line `line` has no value. -/
def returnsNothing (line : Nat) : Read Bool := do
  let m ← mark s
  let closes :=
    match m.kind with
    | none | some (.punct .rbrace) | some (.punct .semicolon) | some (.keyword .endKw)
    | some (.keyword .elseKw) | some (.keyword .elseifKw) => true
    | _ => false
  return decide (m.pos.line ≠ line) || closes

def returning : Read Stmt := do
  let pos ← here s
  if (← get).functions = 0 then failAt .strayReturn pos
  else
    expect s (kw .returnKw)
    if ← returnsNothing s pos.line then pure (.ret none pos)
    else
      let value ← expression s
      pure (.ret (some value) pos)

mutual

def statement (s : IndexParser) : Read Stmt := fun b =>
  if maxNesting ≤ b.nesting then failHere s .nestedTooDeep b
  else do
    let r ← s |>.statementWith b.nest
    some (r.1, r.2.unnest)
partial_fixpoint

def statementWith (s : IndexParser) : Read Stmt := do
  match ← peek s with
  | some (.keyword .varKw) => declaration s
  | some (.keyword .ifKw) => s |>.branching
  | some (.keyword .whileKw) => s |>.whileLoop
  | some (.keyword .forKw) => s |>.forLoop
  | some (.keyword .returnKw) => returning s
  | some (.keyword .functionKw) => failHere s .nestedFunction
  | _ => evalOrAssign s
partial_fixpoint

def statementsUntil (s : IndexParser) (stops : Option TokenKind → Bool) : Read (List Stmt) := do
  skipSemicolons s
  if stops (← peek s) then pure []
  else
    let first ← s |>.statement
    let rest ← s |>.statementsUntil stops
    pure (first :: rest)
partial_fixpoint

def braceBlock (s : IndexParser) : Read (List Stmt) := do
  expect s (sym .lbrace)
  let body ← s |>.statementsUntil fun k => k = none ∨ k = some (sym .rbrace)
  expect s (sym .rbrace)
  pure body
partial_fixpoint

def endBlock (s : IndexParser) : Read (List Stmt) := do
  let body ← s |>.statementsUntil endsBlock
  expect s (kw .endKw)
  pure body
partial_fixpoint

def thenBlock (s : IndexParser) : Read (List Stmt) := do
  let _ ← accept s (kw .thenKw)
  s |>.statementsUntil endsBlock
partial_fixpoint

def loopBody (s : IndexParser) : Read (List Stmt) := do
  if ← check s (sym .lbrace) then s |>.braceBlock
  else
    let _ ← accept s (kw .doKw)
    s |>.endBlock
partial_fixpoint

def braceBranches (s : IndexParser) : Read (List (Expr × List Stmt) × Option (List Stmt)) := do
  if ← accept s (kw .elseifKw) then
    let test ← expression s
    let body ← s |>.braceBlock
    let rest ← s |>.braceBranches
    pure ((test, body) :: rest.1, rest.2)
  else if ← accept s (kw .elseKw) then
    if ← accept s (kw .ifKw) then
      let test ← expression s
      let body ← s |>.braceBlock
      let rest ← s |>.braceBranches
      pure ((test, body) :: rest.1, rest.2)
    else
      let body ← s |>.braceBlock
      pure ([], some body)
  else pure ([], none)
partial_fixpoint

def keywordBranches (s : IndexParser) : Read (List (Expr × List Stmt) × Option (List Stmt)) := do
  if ← accept s (kw .elseifKw) then
    let test ← expression s
    let body ← s |>.thenBlock
    let rest ← s |>.keywordBranches
    pure ((test, body) :: rest.1, rest.2)
  else if ← accept s (kw .elseKw) then
    let body ← s |>.endBlock
    pure ([], some body)
  else
    expect s (kw .endKw)
    pure ([], none)
partial_fixpoint

def branching (s : IndexParser) : Read Stmt := do
  let pos ← here s
  expect s (kw .ifKw)
  let test ← expression s
  if ← check s (sym .lbrace) then
    let body ← s |>.braceBlock
    let rest ← s |>.braceBranches
    pure (.branch ((test, body) :: rest.1) rest.2 pos)
  else
    let body ← s |>.thenBlock
    let rest ← s |>.keywordBranches
    pure (.branch ((test, body) :: rest.1) rest.2 pos)
partial_fixpoint

def whileLoop (s : IndexParser) : Read Stmt := do
  let pos ← here s
  expect s (kw .whileKw)
  let test ← expression s
  let body ← s |>.loopBody
  pure (.whileDo test body pos)
partial_fixpoint

def firstClause (s : IndexParser) : Read (Option Stmt) := do
  if ← check s (sym .semicolon) then pure none
  else
    let init ← s |>.statement
    pure (some init)
partial_fixpoint

def clauseLoop (s : IndexParser) (pos : Pos) : Read Stmt := do
  expect s (sym .lparen)
  let init ← s |>.firstClause
  expect s (sym .semicolon)
  let test ← unlessNext s (sym .semicolon) (expression s)
  expect s (sym .semicolon)
  let step ← unlessNext s (sym .rparen) (evalOrAssign s)
  expect s (sym .rparen)
  let body ← s |>.loopBody
  pure (.clauses init test step body pos)
partial_fixpoint

def forLoop (s : IndexParser) : Read Stmt := do
  let pos ← here s
  expect s (kw .forKw)
  if ← check s (sym .lparen) then s |>.clauseLoop pos
  else
    let var ← identifier s
    expect s (sym .eq)
    let start ← expression s
    expect s (sym .comma)
    let stop ← expression s
    let step ← behind s (sym .comma) (expression s)
    let body ← s |>.loopBody
    pure (.count var start stop step body pos)
partial_fixpoint

end

/-! ### Programs -/

def parameter : Read Param := do
  let pos ← here s
  let name ← identifier s
  pure ⟨name, pos⟩

def parameters (s : IndexParser) : Read (List Param) := do
  let next ← peek s
  if next = some (sym .rparen) ∨ next = none then pure []
  else
    let first ← parameter s
    if ← accept s (sym .comma) then
      let rest ← s |>.parameters
      pure (first :: rest)
    else pure [first]
partial_fixpoint

def Books.enter (b : Books) : Books := { b with functions := b.functions + 1 }

def Books.leave (b : Books) : Books := { b with functions := b.functions - 1 }

def functionBody : Read (List Stmt) :=
  between Books.enter Books.leave do
    if ← check s (sym .lbrace) then braceBlock s else endBlock s

def functionRest (pos : Pos) : Read FnDef := do
  let name ← identifier s
  expect s (sym .lparen)
  let params ← parameters s
  expect s (sym .rparen)
  let body ← functionBody s
  pure ⟨name, params, body, pos⟩

def functionDef : Read FnDef := do
  let pos ← here s
  expect s (kw .functionKw)
  functionRest s pos

def shorthandDef : Read FnDef := do
  let pos ← here s
  functionRest s pos

/-- The kind of the entry at an index, if there is one. -/
def kindAt (i : Nat) : Option TokenKind := s.marks[i]?.bind Mark.kind

def isName : Option TokenKind → Bool
  | some (.ident _) => true
  | _ => false

/-- Whether `) {` stands at an index. -/
def bodyFollows (i : Nat) : Bool := kindAt s i = some (sym .rparen) ∧ kindAt s (i + 1) = some (sym .lbrace)

/-- Whether parameters in the form `, name` go on from an index up to `) {`. -/
def closesParameters (s : IndexParser) (i : Nat) : Option Bool :=
  if kindAt s i = some (sym .comma) ∧ isName (kindAt s (i + 1)) then s |>.closesParameters (i + 2)
  else some (bodyFollows s i)
partial_fixpoint

/-- Whether `name(a, b) {` stands at an index. -/
def isShorthand (i : Nat) : Option Bool :=
  if isName (kindAt s i) ∧ kindAt s (i + 1) = some (sym .lparen) then
    if isName (kindAt s (i + 2)) then closesParameters s (i + 3)
    else some (bodyFollows s (i + 2))
  else some false

def startsShorthand : Read Bool := fun b => (isShorthand s b.index).map fun starts => (.ok starts, b)

/-- Moves to the next token at which reading can start again, or to the end. -/
def recover : Read Unit := pass s fun kind => !isRestart kind

/-- What comes of an item. Behind a mistake the parser starts again. -/
def attempt {α : Type} (p : Read α) (wrap : α → Item) : Read Round :=
  tryCatch (do return .item (wrap (← p))) fun
    | .mistake d => do
      recover s
      pure (.mistake d)
    | .outside => throw .outside

def round (hadMistake : Bool) : Read Round := do
  match ← peek s with
  | none => pure .nothing
  | some (.punct .semicolon) => skip s; pure .nothing
  | some (.keyword .functionKw) => attempt s (functionDef s) .function
  | some kind =>
    if ← startsShorthand s then attempt s (shorthandDef s) .function
    else if hadMistake ∧ (kind = sym .rbrace ∨ kind = kw .endKw) then
      skip s
      pure .nothing
    else attempt s (statement s) .stmt

/-- A round of the top level: the books when it began, and what came of it. -/
structure Entry where
  books : Books
  round : Round

def item? : Round → Option Item
  | .item item => some item
  | .mistake _ | .nothing => none

def mistake? : Round → Option Diagnostic
  | .mistake d => some d
  | .item _ | .nothing => none

/-- Moves on by one entry unless the parser has left the place already. -/
def leave (place : Nat) : Read Unit := do
  if (← get).index = place then skip s else pure ()

/-- The rounds of the top level, up to the end. -/
def rounds (s : IndexParser) (hadMistake : Bool) : Read (List Entry) := do
  if (← peek s) = none then pure []
  else
    let books ← get
    let outcome ← round s hadMistake
    leave s books.index
    let rest ← s |>.rounds (hadMistake || (mistake? outcome).isSome)
    pure (⟨books, outcome⟩ :: rest)
partial_fixpoint

/-- All rounds of the parser, with empty books at the start. -/
def run : Option (Except Halt (List Entry) × Books) := rounds s false ⟨0, 0, 0⟩

def itemsOf (log : List Entry) : List Item := log.filterMap fun entry => item? entry.round

def mistakesOf (log : List Entry) : List Diagnostic := log.filterMap fun entry => mistake? entry.round

/-- The program that rounds have read, or all mistakes that they have met. -/
def answer (log : List Entry) : Except (List Diagnostic) Program :=
  if (mistakesOf log).isEmpty then .ok ⟨itemsOf log⟩ else .error (mistakesOf log)

end IndexParser

end Sketch
