import Sketch.Proofs.Syntax.Operators
import Sketch.Proofs.Syntax.Trees

/-!
Programs as tokens. There are parentheses only where the tiers of operators ask for them, and each block stands in
braces or between keywords, as a styling chooses.
-/

open Sketch.Parser (sym kw)

namespace Sketch

/-! ### Expressions -/

/-- How tightly an expression holds together. -/
def Expr.tier : Expr → Nat
  | .bin op .. => op.tier
  | .un .. => 6
  | _ => 7

/-- Puts tokens in parentheses if they need them. -/
def enclose (needed : Bool) (kinds : List TokenKind) : List TokenKind :=
  if needed then sym .lparen :: kinds ++ [sym .rparen] else kinds

/-- Puts commas between parts. -/
def separate : List (List TokenKind) → List TokenKind
  | [] => []
  | first :: rest => first ++ rest.flatMap (sym .comma :: ·)

mutual

def Expr.print : Expr → List TokenKind
  | .num value _ => [.number value]
  | .bool value _ => [.bool value]
  | .str text _ => [.string text]
  | .nil _ => [kw .nilKw]
  | .ident name _ => [.ident name]
  | .bin op left right _ =>
    enclose (left.tier < op.tier) left.print ++ op.token :: enclose (right.tier ≤ op.tier) right.print
  | .un op operand _ => op.token :: enclose (operand.tier < 6) operand.print
  | .call callee args _ =>
    .ident callee :: sym .lparen :: separate (Expr.printEach args) ++ [sym .rparen]
  | .method object name args _ =>
    enclose (object.tier < 7) object.print ++
      sym .dot :: .ident name :: sym .lparen :: separate (Expr.printEach args) ++ [sym .rparen]
  | .field object name _ => enclose (object.tier < 7) object.print ++ [sym .dot, .ident name]
  | .index object key _ =>
    enclose (object.tier < 7) object.print ++ sym .lbracket :: key.print ++ [sym .rbracket]
  | .list items _ => sym .lbracket :: separate (Expr.printEach items) ++ [sym .rbracket]
  | .map entries _ => sym .lbrace :: separate (Expr.printEntries entries) ++ [sym .rbrace]

def Expr.printEach : List Expr → List (List TokenKind)
  | [] => []
  | e :: rest => e.print :: Expr.printEach rest

def Expr.printEntries : List (String × Expr) → List (List TokenKind)
  | [] => []
  | (key, e) :: rest => (.string key :: sym .colon :: e.print) :: Expr.printEntries rest

end

mutual

/-- How many levels of nesting an expression takes. -/
def Expr.depth : Expr → Nat
  | .num .. | .bool .. | .str .. | .nil _ | .ident .. => 1
  | .bin op left right _ =>
    max (left.depth + (decide (left.tier < op.tier)).toNat)
      (right.depth + (decide (right.tier ≤ op.tier)).toNat)
  | .un _ operand _ => operand.depth + (decide (operand.tier < 6)).toNat + 1
  | .call _ args _ => Expr.depthEach args + 1
  | .method object _ args _ =>
    max (object.depth + (decide (object.tier < 7)).toNat) (Expr.depthEach args + 1)
  | .field object _ _ => object.depth + (decide (object.tier < 7)).toNat
  | .index object key _ => max (object.depth + (decide (object.tier < 7)).toNat) (key.depth + 1)
  | .list items _ => Expr.depthEach items + 1
  | .map entries _ => Expr.depthEntries entries + 1

def Expr.depthEach : List Expr → Nat
  | [] => 0
  | e :: rest => max e.depth (Expr.depthEach rest)

def Expr.depthEntries : List (String × Expr) → Nat
  | [] => 0
  | (_, e) :: rest => max e.depth (Expr.depthEntries rest)

end

mutual

/-- An expression without its positions. -/
def Expr.bare : Expr → Expr
  | .num value _ => .num value default
  | .bool value _ => .bool value default
  | .str text _ => .str text default
  | .nil _ => .nil default
  | .ident name _ => .ident name default
  | .bin op left right _ => .bin op left.bare right.bare default
  | .un op operand _ => .un op operand.bare default
  | .call callee args _ => .call callee (Expr.bareEach args) default
  | .method object name args _ => .method object.bare name (Expr.bareEach args) default
  | .field object name _ => .field object.bare name default
  | .index object key _ => .index object.bare key.bare default
  | .list items _ => .list (Expr.bareEach items) default
  | .map entries _ => .map (Expr.bareEntries entries) default

def Expr.bareEach : List Expr → List Expr
  | [] => []
  | e :: rest => e.bare :: Expr.bareEach rest

def Expr.bareEntries : List (String × Expr) → List (String × Expr)
  | [] => []
  | (key, e) :: rest => (key, e.bare) :: Expr.bareEntries rest

end

theorem Expr.printEach_eq_map (items : List Expr) : Expr.printEach items = items.map Expr.print := by
  induction items with
  | nil => rfl
  | cons e rest ih => rw [Expr.printEach, ih, List.map_cons]

theorem Expr.printEntries_eq_map (entries : List (String × Expr)) :
    Expr.printEntries entries =
      entries.map fun entry => .string entry.1 :: sym .colon :: entry.2.print := by
  induction entries with
  | nil => rfl
  | cons entry rest ih => rw [Expr.printEntries, ih, List.map_cons]

theorem Expr.bareEach_eq_map (items : List Expr) : Expr.bareEach items = items.map Expr.bare := by
  induction items with
  | nil => rfl
  | cons e rest ih => rw [Expr.bareEach, ih, List.map_cons]

theorem Expr.bareEntries_eq_map (entries : List (String × Expr)) :
    Expr.bareEntries entries = entries.map fun entry => (entry.1, entry.2.bare) := by
  induction entries with
  | nil => rfl
  | cons entry rest ih => rw [Expr.bareEntries, ih, List.map_cons]

section Forms

variable {object object' : Expr} {pos pos' : Pos}

/-- What is in brackets, in front of what follows. -/
theorem Expr.print_call_append (callee : String) (args : List Expr) (rest : List TokenKind) :
    (Expr.call callee args pos).print ++ rest =
      .ident callee :: sym .lparen :: (separate (Expr.printEach args) ++ sym .rparen :: rest) := by
  rw [Expr.print]
  simp

theorem Expr.print_list_append (items : List Expr) (rest : List TokenKind) :
    (Expr.list items pos).print ++ rest =
      sym .lbracket :: (separate (Expr.printEach items) ++ sym .rbracket :: rest) := by
  rw [Expr.print]
  simp

theorem Expr.print_map_append (entries : List (String × Expr)) (rest : List TokenKind) :
    (Expr.map entries pos).print ++ rest =
      sym .lbrace :: (separate (Expr.printEntries entries) ++ sym .rbrace :: rest) := by
  rw [Expr.print]
  simp

/-- Up to positions a postfix is known from its parts. -/
theorem Expr.bare_field (name : String) (same : object'.bare = object.bare) :
    (Expr.field object' name pos').bare = (Expr.field object name pos).bare := by
  rw [Expr.bare, Expr.bare, same]

theorem Expr.bare_index {key key' : Expr} (same : object'.bare = object.bare) (sameKey : key'.bare = key.bare) :
    (Expr.index object' key' pos').bare = (Expr.index object key pos).bare := by
  rw [Expr.bare, Expr.bare, same, sameKey]

theorem Expr.bare_method (name : String) {args args' : List Expr} (same : object'.bare = object.bare)
    (sameArgs : Expr.bareEach args' = Expr.bareEach args) :
    (Expr.method object' name args' pos').bare = (Expr.method object name args pos).bare := by
  rw [Expr.bare, Expr.bare, same, sameArgs]

end Forms

theorem Expr.depthEach_eq_foldr (items : List Expr) : Expr.depthEach items = (items.map Expr.depth).foldr max 0 := by
  induction items with
  | nil => rfl
  | cons e rest ih =>
    rw [Expr.depthEach, ih, List.map_cons, List.foldr_cons]

theorem Expr.depthEntries_eq_foldr (entries : List (String × Expr)) :
    Expr.depthEntries entries = (entries.map (·.2.depth)).foldr max 0 := by
  induction entries with
  | nil => rfl
  | cons entry rest ih =>
    rw [Expr.depthEntries, ih, List.map_cons, List.foldr_cons]

/-- No part is deeper than the deepest. -/
theorem le_foldr_max {α : Type} (measure : α → Nat) {parts : List α} {part : α} (mem : part ∈ parts) :
    measure part ≤ (parts.map measure).foldr max 0 := by
  induction parts with
  | nil => cases mem
  | cons first rest ih =>
    rw [List.map_cons, List.foldr_cons]
    rcases List.mem_cons.mp mem with rfl | mem
    · exact Nat.le_max_left _ _
    · exact Nat.le_trans (ih mem) (Nat.le_max_right _ _)

theorem Expr.depth_le_depthEach {items : List Expr} {e : Expr} (mem : e ∈ items) : e.depth ≤ Expr.depthEach items := by
  rw [Expr.depthEach_eq_foldr]
  exact le_foldr_max Expr.depth mem

theorem Expr.depth_le_depthEntries {entries : List (String × Expr)} {entry : String × Expr}
    (mem : entry ∈ entries) : entry.2.depth ≤ Expr.depthEntries entries := by
  rw [Expr.depthEntries_eq_foldr]
  exact le_foldr_max (fun entry => entry.2.depth) mem

theorem Expr.depth_pos (e : Expr) : 0 < e.depth := by
  induction e using Expr.inductionOn with
  | num | bool | str | nil | ident | un | call | list | map => exact Nat.succ_pos _
  | bin op left right pos leftPos =>
    rw [Expr.depth]
    omega
  | method object name args pos objectPos =>
    rw [Expr.depth]
    omega
  | field object name pos objectPos =>
    rw [Expr.depth]
    omega
  | index object key pos objectPos =>
    rw [Expr.depth]
    omega

namespace Target

def print : Target → List TokenKind
  | .name n => [.ident n]
  | .index object key =>
    enclose (object.tier < 7) object.print ++ sym .lbracket :: key.print ++ [sym .rbracket]
  | .field object n => enclose (object.tier < 7) object.print ++ [sym .dot, .ident n]

def depth : Target → Nat
  | .name _ => 1
  | .index object key => max (object.depth + (decide (object.tier < 7)).toNat) (key.depth + 1)
  | .field object _ => object.depth + (decide (object.tier < 7)).toNat

def bare : Target → Target
  | .name n => .name n
  | .index object key => .index object.bare key.bare
  | .field object n => .field object.bare n

end Target

/-! ### Styles -/

/-- How blocks are written. In braces, `else if` may be one word or two. -/
inductive BlockStyle where
  | braces (split : Bool)
  | keywords
deriving DecidableEq, Repr, Inhabited

namespace BlockStyle

/-- What opens and closes a block behind a header. -/
def opening (header : TokenKind) : BlockStyle → TokenKind
  | .braces _ => sym .lbrace
  | .keywords => header

def closing : BlockStyle → TokenKind
  | .braces _ => sym .rbrace
  | .keywords => kw .endKw

/-- What introduces a further branch. -/
def elseIf : BlockStyle → List TokenKind
  | .braces true => [kw .elseKw, kw .ifKw]
  | .braces false | .keywords => [kw .elseifKw]

end BlockStyle

/-- A style for every place of a program. A place is the path that leads to it. -/
def Styling : Type := List Nat → BlockStyle

namespace Styling

def inner (σ : Styling) (i : Nat) : Styling := fun path => σ (i :: path)

/-- The styles of what comes next to the first part. -/
def tail (σ : Styling) : Styling
  | [] => σ []
  | i :: path => σ ((i + 1) :: path)

end Styling

/-! ### Statements -/

/-- The symbol of an assignment. -/
def assignSymbol (op : Option BinOp) : TokenKind := (op.bind BinOp.assignToken?).getD (sym .eq)

mutual

/-- The tokens of a statement, without the semicolon behind it. -/
def Stmt.print : Stmt → Styling → List TokenKind
  | .declare name init _, _ => kw .varKw :: .ident name :: init.elim [] (sym .eq :: ·.print)
  | .assign target op value _, _ => target.print ++ assignSymbol op :: value.print
  | .branch branches otherwise _, σ =>
    Stmt.printBranches branches [kw .ifKw] (σ []) σ ++
      Stmt.printOtherwise otherwise (σ []) (σ.inner branches.length)
  | .count var start stop step body _, σ =>
    kw .forKw :: .ident var :: sym .eq :: start.print ++ sym .comma :: stop.print ++
      step.elim [] (sym .comma :: ·.print) ++
      (σ []).opening (kw .doKw) :: Stmt.printBlock body (σ.inner 0) ++ [(σ []).closing]
  | .clauses init test step body _, σ =>
    kw .forKw :: sym .lparen :: Stmt.printClause init (σ.inner 0) ++
      sym .semicolon :: test.elim [] Expr.print ++
      sym .semicolon :: Stmt.printClause step (σ.inner 1) ++
      sym .rparen :: (σ []).opening (kw .doKw) :: Stmt.printBlock body (σ.inner 2) ++ [(σ []).closing]
  | .whileDo test body _, σ =>
    kw .whileKw :: test.print ++
      (σ []).opening (kw .doKw) :: Stmt.printBlock body (σ.inner 0) ++ [(σ []).closing]
  | .ret value _, _ => kw .returnKw :: value.elim [] Expr.print
  | .eval value, _ => value.print

/-- The tokens of statements, each with its semicolon. -/
def Stmt.printBlock : List Stmt → Styling → List TokenKind
  | [], _ => []
  | s :: rest, σ => s.print (σ.inner 0) ++ sym .semicolon :: Stmt.printBlock rest σ.tail

/-- The tokens of branches, the first of which is introduced by `intro`. -/
def Stmt.printBranches : List (Expr × List Stmt) → (intro : List TokenKind) → BlockStyle → Styling →
    List TokenKind
  | [], _, _, _ => []
  | (test, body) :: rest, intro, style, σ =>
    intro ++ test.print ++ style.opening (kw .thenKw) :: Stmt.printBlock body (σ.inner 0) ++
      (match style with
        | .braces _ => [sym .rbrace]
        | .keywords => []) ++
      Stmt.printBranches rest style.elseIf style σ.tail

def Stmt.printOtherwise : Option (List Stmt) → BlockStyle → Styling → List TokenKind
  | none, .braces _, _ => []
  | none, .keywords, _ => [kw .endKw]
  | some body, .braces _, σ =>
    kw .elseKw :: sym .lbrace :: Stmt.printBlock body σ ++ [sym .rbrace]
  | some body, .keywords, σ => kw .elseKw :: Stmt.printBlock body σ ++ [kw .endKw]

def Stmt.printClause : Option Stmt → Styling → List TokenKind
  | none, _ => []
  | some s, σ => s.print σ

end

mutual

/-- How many levels of nesting a statement takes. -/
def Stmt.depth : Stmt → Nat
  | .declare _ init _ => init.elim 0 Expr.depth + 1
  | .assign target _ value _ => max target.depth value.depth + 1
  | .branch branches otherwise _ =>
    max (Stmt.depthBranches branches) (Stmt.depthOtherwise otherwise) + 1
  | .count _ start stop step body _ =>
    max (max start.depth stop.depth) (max (step.elim 0 Expr.depth) (Stmt.depthBlock body)) + 1
  | .clauses init test step body _ =>
    max (max (Stmt.depthClause init) (test.elim 0 Expr.depth))
      (max (Stmt.depthClause step - 1) (Stmt.depthBlock body)) + 1
  | .whileDo test body _ => max test.depth (Stmt.depthBlock body) + 1
  | .ret value _ => value.elim 0 Expr.depth + 1
  | .eval value => value.depth + 1

def Stmt.depthBlock : List Stmt → Nat
  | [] => 0
  | s :: rest => max s.depth (Stmt.depthBlock rest)

def Stmt.depthBranches : List (Expr × List Stmt) → Nat
  | [] => 0
  | (test, body) :: rest => max (max test.depth (Stmt.depthBlock body)) (Stmt.depthBranches rest)

def Stmt.depthOtherwise : Option (List Stmt) → Nat
  | none => 0
  | some body => Stmt.depthBlock body

def Stmt.depthClause : Option Stmt → Nat
  | none => 0
  | some s => s.depth

end

mutual

def Stmt.bare : Stmt → Stmt
  | .declare name init _ => .declare name (init.map Expr.bare) default
  | .assign target op value _ => .assign target.bare op value.bare default
  | .branch branches otherwise _ =>
    .branch (Stmt.bareBranches branches) (Stmt.bareOtherwise otherwise) default
  | .count var start stop step body _ =>
    .count var start.bare stop.bare (step.map Expr.bare) (Stmt.bareBlock body) default
  | .clauses init test step body _ =>
    .clauses (Stmt.bareClause init) (test.map Expr.bare) (Stmt.bareClause step) (Stmt.bareBlock body)
      default
  | .whileDo test body _ => .whileDo test.bare (Stmt.bareBlock body) default
  | .ret value _ => .ret (value.map Expr.bare) default
  | .eval value => .eval value.bare

def Stmt.bareBlock : List Stmt → List Stmt
  | [] => []
  | s :: rest => s.bare :: Stmt.bareBlock rest

def Stmt.bareBranches : List (Expr × List Stmt) → List (Expr × List Stmt)
  | [] => []
  | (test, body) :: rest => (test.bare, Stmt.bareBlock body) :: Stmt.bareBranches rest

def Stmt.bareOtherwise : Option (List Stmt) → Option (List Stmt)
  | none => none
  | some body => some (Stmt.bareBlock body)

def Stmt.bareClause : Option Stmt → Option Stmt
  | none => none
  | some s => some s.bare

end

/-- Whether a statement is an assignment or an expression. -/
def Stmt.isSimple : Stmt → Bool
  | .assign .. | .eval _ => true
  | _ => false

mutual

/-- Whether a statement can be written down: chains have a branch, only functions return, and so on. -/
def Stmt.isPrintable (inFunction : Bool) : Stmt → Bool
  | .declare .. | .eval _ => true
  | .assign _ op _ _ => op.all (·.assignToken?.isSome)
  | .branch branches otherwise _ =>
    !branches.isEmpty && Stmt.arePrintableBranches inFunction branches &&
      Stmt.isPrintableOtherwise inFunction otherwise
  | .count _ _ _ _ body _ | .whileDo _ body _ => Stmt.arePrintable inFunction body
  | .clauses init _ step body _ =>
    Stmt.isPrintableClause inFunction init && Stmt.isPrintableClause inFunction step &&
      step.all Stmt.isSimple && Stmt.arePrintable inFunction body
  | .ret .. => inFunction

def Stmt.arePrintable (inFunction : Bool) : List Stmt → Bool
  | [] => true
  | s :: rest => s.isPrintable inFunction && Stmt.arePrintable inFunction rest

def Stmt.arePrintableBranches (inFunction : Bool) : List (Expr × List Stmt) → Bool
  | [] => true
  | (_, body) :: rest => Stmt.arePrintable inFunction body && Stmt.arePrintableBranches inFunction rest

def Stmt.isPrintableOtherwise (inFunction : Bool) : Option (List Stmt) → Bool
  | none => true
  | some body => Stmt.arePrintable inFunction body

def Stmt.isPrintableClause (inFunction : Bool) : Option Stmt → Bool
  | none => true
  | some s => s.isPrintable inFunction

end

section Loops

variable (body : List Stmt) {pos : Pos} (σ : Styling) (rest : List TokenKind)

/-- The tokens of a loop, in front of what follows. -/
theorem Stmt.print_whileDo_append (test : Expr) :
    (Stmt.whileDo test body pos).print σ ++ rest =
      kw .whileKw :: (test.print ++
        ((σ []).opening (kw .doKw) :: Stmt.printBlock body (σ.inner 0) ++ [(σ []).closing] ++ rest)) := by
  simp [Stmt.print]

theorem Stmt.print_count_append (var : String) (start stop : Expr) (step : Option Expr) :
    (Stmt.count var start stop step body pos).print σ ++ rest =
      kw .forKw :: .ident var :: sym .eq :: (start.print ++ sym .comma :: (stop.print ++
        (step.elim [] (sym .comma :: ·.print) ++ ((σ []).opening (kw .doKw) ::
          Stmt.printBlock body (σ.inner 0) ++ [(σ []).closing] ++ rest)))) := by
  simp [Stmt.print]

theorem Stmt.print_clauses_append (init step : Option Stmt) (test : Option Expr) :
    (Stmt.clauses init test step body pos).print σ ++ rest =
      kw .forKw :: sym .lparen :: (init.elim [] (·.print (σ.inner 0)) ++ sym .semicolon ::
        (test.elim [] Expr.print ++ sym .semicolon :: (step.elim [] (·.print (σ.inner 1)) ++ sym .rparen ::
          ((σ []).opening (kw .doKw) :: Stmt.printBlock body (σ.inner 2) ++ [(σ []).closing] ++ rest)))) := by
  cases init <;> cases step <;> simp [Stmt.print, Stmt.printClause]

end Loops

theorem Stmt.depthBlock_eq_foldr (body : List Stmt) : Stmt.depthBlock body = (body.map Stmt.depth).foldr max 0 := by
  induction body with
  | nil => rfl
  | cons s rest ih =>
    rw [Stmt.depthBlock, ih, List.map_cons, List.foldr_cons]

theorem Stmt.depthBranches_eq_foldr (branches : List (Expr × List Stmt)) :
    Stmt.depthBranches branches =
      (branches.map fun branch => max branch.1.depth (Stmt.depthBlock branch.2)).foldr max 0 := by
  induction branches with
  | nil => rfl
  | cons branch rest ih =>
    rw [Stmt.depthBranches, ih, List.map_cons, List.foldr_cons]

theorem Stmt.depth_le_depthBlock {body : List Stmt} {s : Stmt} (mem : s ∈ body) : s.depth ≤ Stmt.depthBlock body := by
  rw [Stmt.depthBlock_eq_foldr]
  exact le_foldr_max Stmt.depth mem

theorem Stmt.depth_le_depthBranches {branches : List (Expr × List Stmt)} {branch : Expr × List Stmt}
    (mem : branch ∈ branches) : max branch.1.depth (Stmt.depthBlock branch.2) ≤ Stmt.depthBranches branches := by
  rw [Stmt.depthBranches_eq_foldr]
  exact le_foldr_max (fun branch => max branch.1.depth (Stmt.depthBlock branch.2)) mem

theorem Stmt.arePrintable_eq_all (inFunction : Bool) (body : List Stmt) :
    Stmt.arePrintable inFunction body = body.all (Stmt.isPrintable inFunction) := by
  induction body with
  | nil => rfl
  | cons s rest ih => rw [Stmt.arePrintable, ih, List.all_cons]

theorem Stmt.arePrintableBranches_eq_all (inFunction : Bool) (branches : List (Expr × List Stmt)) :
    Stmt.arePrintableBranches inFunction branches =
      branches.all fun branch => Stmt.arePrintable inFunction branch.2 := by
  induction branches with
  | nil => rfl
  | cons branch rest ih =>
    rw [Stmt.arePrintableBranches, ih, List.all_cons]

/-! ### Programs -/

/-- The tokens of a function. A body without braces begins with a semicolon. -/
def FnDef.print (f : FnDef) (σ : Styling) : List TokenKind :=
  kw .functionKw :: .ident f.name :: sym .lparen :: separate (f.params.map ([.ident ·.name])) ++
    sym .rparen :: (σ []).opening (sym .semicolon) :: Stmt.printBlock f.body (σ.inner 0) ++
    [(σ []).closing]

namespace Item

def print : Item → Styling → List TokenKind
  | .function f, σ => f.print σ
  | .stmt s, σ => s.print σ ++ [sym .semicolon]

def depth : Item → Nat
  | .function f => Stmt.depthBlock f.body
  | .stmt s => s.depth

def bare : Item → Item
  | .function f => .function ⟨f.name, f.params.map (⟨·.name, default⟩), Stmt.bareBlock f.body, default⟩
  | .stmt s => .stmt s.bare

def isPrintable : Item → Bool
  | .function f => Stmt.arePrintable true f.body
  | .stmt s => s.isPrintable false

end Item

def printItems : List Item → Styling → List TokenKind
  | [], _ => []
  | i :: rest, σ => i.print (σ.inner 0) ++ printItems rest σ.tail

namespace Program

/-- The tokens of a program in a styling. -/
def print (p : Program) (σ : Styling) : List TokenKind := printItems p.items σ

def bare (p : Program) : Program := ⟨p.items.map Item.bare⟩

def isPrintable (p : Program) : Bool := p.items.all Item.isPrintable

/-- How many levels of nesting the deepest item of a program takes. -/
def depth (p : Program) : Nat := (p.items.map Item.depth).foldr max 0

theorem depth_le_depth {p : Program} {i : Item} (mem : i ∈ p.items) : i.depth ≤ p.depth :=
  le_foldr_max Item.depth mem

end Program

end Sketch
