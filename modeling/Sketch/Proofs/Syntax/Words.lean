import Mathlib.Data.List.Forall2
import Sketch.Proofs.Syntax.Operators

/-!
The words of a program, in the order in which they stand in its text, and the tokens that spell them. The parser reads
expressions word by word.
-/

namespace Sketch

/-- What a program consists of: names, literals, keys of maps, and operators. -/
inductive Word where
  | name (name : String)
  | number (value : Float)
  | bool (value : Bool)
  | text (text : String)
  | nil
  | key (key : String)
  | unary (op : UnOp)
  | binary (op : BinOp)
  | compound (op : BinOp)
deriving DecidableEq, Repr, Inhabited

/-- The tokens that spell a word. A key can be a name, a text or a number. -/
inductive Word.SpeltBy : Word → TokenKind → Prop where
  | name (name : String) : SpeltBy (.name name) (.ident name)
  | number (value : Float) : SpeltBy (.number value) (.number value)
  | bool (value : Bool) : SpeltBy (.bool value) (.bool value)
  | text (text : String) : SpeltBy (.text text) (.string text)
  | nil : SpeltBy .nil (.keyword .nilKw)
  | keyName (key : String) : SpeltBy (.key key) (.ident key)
  | keyText (key : String) : SpeltBy (.key key) (.string key)
  | keyNumber (value : Float) : SpeltBy (.key (Number.Spelling.sketch.write value)) (.number value)
  | unary (op : UnOp) : SpeltBy (.unary op) op.token
  | binary (op : BinOp) : SpeltBy (.binary op) op.token
  | compound {op : BinOp} {kind : TokenKind} (assigns : op.assignToken? = some kind) :
      SpeltBy (.compound op) kind

namespace TokenKind

/-- Whether a token is a name, a literal or an operator. -/
def isWord : TokenKind → Bool
  | .number _ | .bool _ | .string _ | .ident _ => true
  | .keyword .nilKw | .keyword .andKw | .keyword .orKw | .keyword .notKw => true
  | .keyword _ => false
  | .punct .plus | .punct .minus | .punct .star | .punct .slash | .punct .percent
  | .punct .plusEq | .punct .minusEq | .punct .starEq | .punct .slashEq
  | .punct .eqEq | .punct .bangEq | .punct .lt | .punct .ltEq | .punct .gt | .punct .gtEq => true
  | .punct _ => false

/-- Whether a token is a keyword, a bracket, a separator or the plain assignment symbol. -/
def isFrame : TokenKind → Bool
  | .keyword .functionKw | .keyword .endKw | .keyword .ifKw | .keyword .thenKw | .keyword .elseKw
  | .keyword .elseifKw | .keyword .forKw | .keyword .whileKw | .keyword .doKw | .keyword .returnKw
  | .keyword .varKw => true
  | .punct .lparen | .punct .rparen | .punct .lbrace | .punct .rbrace | .punct .lbracket
  | .punct .rbracket => true
  | .punct .comma | .punct .colon | .punct .semicolon | .punct .dot | .punct .eq => true
  | _ => false

theorem isFrame_eq_not_isWord (kind : TokenKind) : kind.isFrame = !kind.isWord := by
  cases kind with
  | number | bool | string | ident => rfl
  | keyword word => cases word <;> rfl
  | punct symbol => cases symbol <;> rfl

end TokenKind

theorem BinOp.isWord_token (op : BinOp) : op.token.isWord = true := by
  cases op <;> rfl

/-- Tokens spell words one after the other, with any frame around them. -/
def Spell (words : List Word) (used : List Token) : Prop :=
  List.Forall₂ Word.SpeltBy words ((used.map (·.kind)).filter TokenKind.isWord)

namespace Spell

variable {words words' : List Word} {used used' : List Token} {t : Token}

theorem nil : Spell [] [] := List.Forall₂.nil

theorem frame (frames : t.kind.isWord = false) (rest : Spell words used) : Spell words (t :: used) := by
  rw [Spell, List.map_cons, List.filter_cons_of_neg (by simp [frames])]
  exact rest

theorem word {word : Word} (isWord : t.kind.isWord = true) (speltBy : word.SpeltBy t.kind)
    (rest : Spell words used) : Spell (word :: words) (t :: used) := by
  rw [Spell, List.map_cons, List.filter_cons_of_pos isWord]
  exact .cons speltBy rest

end Spell

section Traversal

mutual

/-- The words of an expression from left to right. -/
def Expr.words : Expr → List Word
  | .num value _ => [.number value]
  | .bool value _ => [.bool value]
  | .str text _ => [.text text]
  | .nil _ => [.nil]
  | .ident name _ => [.name name]
  | .bin op left right _ => left.words ++ .binary op :: right.words
  | .un op operand _ => .unary op :: operand.words
  | .call callee args _ => .name callee :: Expr.listWords args
  | .method object name args _ => object.words ++ .name name :: Expr.listWords args
  | .field object name _ => object.words ++ [.name name]
  | .index object key _ => object.words ++ key.words
  | .list items _ => Expr.listWords items
  | .map entries _ => Expr.entryWords entries

def Expr.listWords : List Expr → List Word
  | [] => []
  | e :: rest => e.words ++ Expr.listWords rest

def Expr.entryWords : List (String × Expr) → List Word
  | [] => []
  | (key, e) :: rest => .key key :: e.words ++ Expr.entryWords rest

end

theorem Expr.listWords_eq_flatMap (items : List Expr) : Expr.listWords items = items.flatMap Expr.words := by
  induction items with
  | nil => rfl
  | cons e rest ih => rw [Expr.listWords, ih, List.flatMap_cons]

theorem Expr.entryWords_eq_flatMap (entries : List (String × Expr)) :
    Expr.entryWords entries = entries.flatMap fun entry => .key entry.1 :: entry.2.words := by
  induction entries with
  | nil => rfl
  | cons entry rest ih =>
    rw [Expr.entryWords, ih, List.flatMap_cons]

def Target.words : Target → List Word
  | .name n => [.name n]
  | .index object key => object.words ++ key.words
  | .field object n => object.words ++ [.name n]

mutual

def Stmt.words : Stmt → List Word
  | .declare name init _ => .name name :: init.elim [] Expr.words
  | .assign target op value _ => target.words ++ (op.elim [] fun op => [.compound op]) ++ value.words
  | .branch branches otherwise _ => Stmt.branchWords branches ++ Stmt.otherwiseWords otherwise
  | .count var start stop step body _ =>
    .name var :: start.words ++ stop.words ++ step.elim [] Expr.words ++ Stmt.blockWords body
  | .clauses init test step body _ =>
    Stmt.clauseWords init ++ test.elim [] Expr.words ++ Stmt.clauseWords step ++ Stmt.blockWords body
  | .whileDo test body _ => test.words ++ Stmt.blockWords body
  | .ret value _ => value.elim [] Expr.words
  | .eval value => value.words

def Stmt.blockWords : List Stmt → List Word
  | [] => []
  | s :: rest => s.words ++ Stmt.blockWords rest

def Stmt.branchWords : List (Expr × List Stmt) → List Word
  | [] => []
  | (test, body) :: rest => test.words ++ Stmt.blockWords body ++ Stmt.branchWords rest

def Stmt.otherwiseWords : Option (List Stmt) → List Word
  | none => []
  | some body => Stmt.blockWords body

def Stmt.clauseWords : Option Stmt → List Word
  | none => []
  | some s => s.words

end

def FnDef.words (f : FnDef) : List Word :=
  .name f.name :: f.params.map (.name ·.name) ++ Stmt.blockWords f.body

def Item.words : Item → List Word
  | .function f => f.words
  | .stmt s => s.words

def Program.words (p : Program) : List Word := p.items.flatMap Item.words

end Traversal

end Sketch
