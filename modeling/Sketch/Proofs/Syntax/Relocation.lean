import Sketch.Compile
import Sketch.Proofs.Syntax.Cursors
import Sketch.Proofs.Syntax.Trees

/-!
Programs whose tokens stand elsewhere. Tokens that move within their lines give the same program, and the same
mistakes, at the new places.
-/

namespace Sketch

/-- A place that is in no text. -/
def Pos.nowhere : Pos := ⟨0, 0⟩

/-! ### Places of everything that has one -/

section Places

variable (f : Pos → Pos)

def Token.relocate (t : Token) : Token := ⟨t.kind, f t.pos⟩

def TokenStream.relocate (s : TokenStream) : TokenStream := ⟨s.tokens.map (Token.relocate f), f s.stop⟩

def Diagnostic.relocate (d : Diagnostic) : Diagnostic := ⟨d.fault, f d.pos⟩

mutual

/-- The same expression at other places. -/
def Expr.relocate : Expr → Expr
  | .num value pos => .num value (f pos)
  | .bool value pos => .bool value (f pos)
  | .str text pos => .str text (f pos)
  | .nil pos => .nil (f pos)
  | .ident name pos => .ident name (f pos)
  | .bin op left right pos => .bin op left.relocate right.relocate (f pos)
  | .un op operand pos => .un op operand.relocate (f pos)
  | .call callee args pos => .call callee (Expr.relocateEach args) (f pos)
  | .method object name args pos => .method object.relocate name (Expr.relocateEach args) (f pos)
  | .field object name pos => .field object.relocate name (f pos)
  | .index object key pos => .index object.relocate key.relocate (f pos)
  | .list items pos => .list (Expr.relocateEach items) (f pos)
  | .map entries pos => .map (Expr.relocateEntries entries) (f pos)

def Expr.relocateEach : List Expr → List Expr
  | [] => []
  | e :: rest => e.relocate :: Expr.relocateEach rest

def Expr.relocateEntries : List (String × Expr) → List (String × Expr)
  | [] => []
  | (key, e) :: rest => (key, e.relocate) :: Expr.relocateEntries rest

end

def Target.relocate : Target → Target
  | .name n => .name n
  | .index object key => .index (object.relocate f) (key.relocate f)
  | .field object n => .field (object.relocate f) n

mutual

/-- The same statement at other places. -/
def Stmt.relocate : Stmt → Stmt
  | .declare name init pos => .declare name (init.map (Expr.relocate f)) (f pos)
  | .assign target op value pos => .assign (target.relocate f) op (value.relocate f) (f pos)
  | .branch branches otherwise pos =>
    .branch (Stmt.relocateBranches branches) (Stmt.relocateOtherwise otherwise) (f pos)
  | .count var start stop step body pos =>
    .count var (start.relocate f) (stop.relocate f) (step.map (Expr.relocate f)) (Stmt.relocateBlock body)
      (f pos)
  | .clauses init test step body pos =>
    .clauses (Stmt.relocateClause init) (test.map (Expr.relocate f)) (Stmt.relocateClause step)
      (Stmt.relocateBlock body) (f pos)
  | .whileDo test body pos => .whileDo (test.relocate f) (Stmt.relocateBlock body) (f pos)
  | .ret value pos => .ret (value.map (Expr.relocate f)) (f pos)
  | .eval value => .eval (value.relocate f)

def Stmt.relocateBlock : List Stmt → List Stmt
  | [] => []
  | s :: rest => s.relocate :: Stmt.relocateBlock rest

def Stmt.relocateBranches : List (Expr × List Stmt) → List (Expr × List Stmt)
  | [] => []
  | (test, body) :: rest => (test.relocate f, Stmt.relocateBlock body) :: Stmt.relocateBranches rest

def Stmt.relocateOtherwise : Option (List Stmt) → Option (List Stmt)
  | none => none
  | some body => some (Stmt.relocateBlock body)

def Stmt.relocateClause : Option Stmt → Option Stmt
  | none => none
  | some s => some s.relocate

end

def Param.relocate (p : Param) : Param := ⟨p.name, f p.pos⟩

def FnDef.relocate (d : FnDef) : FnDef :=
  ⟨d.name, d.params.map (Param.relocate f), d.body.map (Stmt.relocate f), f d.pos⟩

def Item.relocate : Item → Item
  | .function d => .function (d.relocate f)
  | .stmt s => .stmt (s.relocate f)

def Program.relocate (p : Program) : Program := ⟨p.items.map (Item.relocate f)⟩

def relocateBranch (branch : Expr × List Stmt) : Expr × List Stmt :=
  (branch.1.relocate f, branch.2.map (Stmt.relocate f))

@[simp] theorem Expr.relocateEach_eq_map (items : List Expr) :
    Expr.relocateEach f items = items.map (Expr.relocate f) := by
  induction items with
  | nil => rfl
  | cons e rest ih => rw [Expr.relocateEach, ih, List.map_cons]

@[simp] theorem Expr.relocateEntries_eq_map (entries : List (String × Expr)) :
    Expr.relocateEntries f entries = entries.map (Prod.map id (Expr.relocate f)) := by
  induction entries with
  | nil => rfl
  | cons entry rest ih =>
    rw [Expr.relocateEntries, ih, List.map_cons]
    rfl

@[simp] theorem Stmt.relocateBlock_eq_map (body : List Stmt) :
    Stmt.relocateBlock f body = body.map (Stmt.relocate f) := by
  induction body with
  | nil => rfl
  | cons s rest ih => rw [Stmt.relocateBlock, ih, List.map_cons]

@[simp] theorem Stmt.relocateBranches_eq_map (branches : List (Expr × List Stmt)) :
    Stmt.relocateBranches f branches = branches.map (relocateBranch f) := by
  induction branches with
  | nil => rfl
  | cons branch rest ih =>
    rw [Stmt.relocateBranches, ih, List.map_cons, relocateBranch,
      Stmt.relocateBlock_eq_map]

@[simp] theorem Stmt.relocateOtherwise_eq_map (otherwise : Option (List Stmt)) :
    Stmt.relocateOtherwise f otherwise = otherwise.map (List.map (Stmt.relocate f)) := by
  cases otherwise with
  | none => rfl
  | some body => rw [Stmt.relocateOtherwise, Stmt.relocateBlock_eq_map, Option.map_some]

@[simp] theorem Stmt.relocateClause_eq_map (clause : Option Stmt) :
    Stmt.relocateClause f clause = clause.map (Stmt.relocate f) := by
  cases clause <;> rfl

@[simp] theorem Expr.relocate_pos (e : Expr) : (e.relocate f).pos = f e.pos := by
  cases e <;> rfl

@[simp] theorem Stmt.relocate_pos (s : Stmt) : (s.relocate f).pos = f s.pos := by
  cases s with
  | eval e => exact Expr.relocate_pos f e
  | _ => rfl

end Places

/-! ### Programs that stay where they are -/

theorem map_of_mem {α : Type} {move : α → α} {parts : List α} (each : ∀ part ∈ parts, move part = part) :
    parts.map move = parts := by
  rw [List.map_congr_left each]
  exact List.map_id _

theorem option_map_of_mem {α : Type} {move : α → α} {part : Option α} (each : ∀ a ∈ part, move a = a) :
    part.map move = part := by
  cases part with
  | none => rfl
  | some a => exact congrArg some (each a rfl)

theorem Expr.relocate_id (e : Expr) : e.relocate id = e := by
  induction e using Expr.inductionOn with
  | num | bool | str | nil | ident => rfl
  | bin op left right pos leftEq rightEq => simp only [relocate, leftEq, rightEq, id]
  | un op operand pos operandEq => simp only [relocate, operandEq, id]
  | call callee args pos argsEq => simp only [relocate, relocateEach_eq_map, map_of_mem argsEq, id]
  | method object name args pos objectEq argsEq =>
    simp only [relocate, relocateEach_eq_map, objectEq, map_of_mem argsEq, id]
  | field object name pos objectEq => simp only [relocate, objectEq, id]
  | index object key pos objectEq keyEq => simp only [relocate, objectEq, keyEq, id]
  | list items pos itemsEq => simp only [relocate, relocateEach_eq_map, map_of_mem itemsEq, id]
  | map entries pos entriesEq =>
    have each : ∀ entry ∈ entries, Prod.map id (Expr.relocate id) entry = entry := fun entry mem =>
      Prod.ext rfl (entriesEq entry mem)
    simp only [relocate, relocateEntries_eq_map, map_of_mem each, id]

theorem Target.relocate_id (t : Target) : t.relocate id = t := by
  cases t <;> simp only [relocate, Expr.relocate_id]

theorem Stmt.relocate_id (s : Stmt) : s.relocate id = s := by
  have option (e : Option Expr) : e.map (Expr.relocate id) = e :=
    option_map_of_mem fun e _ => Expr.relocate_id e
  induction s using Stmt.inductionOn with
  | declare name init pos => simp only [relocate, option, id]
  | assign target op value pos => simp only [relocate, Target.relocate_id, Expr.relocate_id, id]
  | branch branches otherwise pos branchesEq otherwiseEq =>
    have each : ∀ branch ∈ branches, relocateBranch id branch = branch := fun branch mem =>
      Prod.ext (Expr.relocate_id branch.1) (map_of_mem (branchesEq branch mem))
    have last : otherwise.map (List.map (Stmt.relocate id)) = otherwise :=
      option_map_of_mem fun body mem => map_of_mem (otherwiseEq body mem)
    simp only [relocate, relocateBranches_eq_map, relocateOtherwise_eq_map, map_of_mem each, last, id]
  | count var start stop step body pos bodyEq =>
    simp only [relocate, relocateBlock_eq_map, Expr.relocate_id, option, map_of_mem bodyEq, id]
  | clauses init test step body pos initEq stepEq bodyEq =>
    simp only [relocate, relocateBlock_eq_map, relocateClause_eq_map, option, option_map_of_mem initEq,
      option_map_of_mem stepEq,
      map_of_mem bodyEq, id]
  | whileDo test body pos bodyEq =>
    simp only [relocate, relocateBlock_eq_map, Expr.relocate_id, map_of_mem bodyEq, id]
  | ret value pos => simp only [relocate, option, id]
  | eval e => simp only [relocate, Expr.relocate_id]

/-! ### What moves within its line -/

/-- A move of places within their lines. -/
structure Shift where
  move : Pos → Pos
  keeps : ∀ pos, (move pos).line = pos.line

/-- Nothing moves. -/
def Shift.still : Shift := ⟨id, fun pos => Eq.refl pos.line⟩

/-- What a parser yields can stand at other places. -/
class Movable (α : Type) where
  relocate : (Pos → Pos) → α → α

instance : Movable Unit := ⟨fun _ => id⟩
instance : Movable String := ⟨fun _ => id⟩
instance : Movable Expr := ⟨Expr.relocate⟩
instance : Movable Stmt := ⟨Stmt.relocate⟩
instance : Movable Param := ⟨Param.relocate⟩
instance : Movable FnDef := ⟨FnDef.relocate⟩
instance {α : Type} [Movable α] : Movable (List α) := ⟨fun f => List.map (Movable.relocate f)⟩
instance {α : Type} [Movable α] : Movable (Option α) := ⟨fun f => Option.map (Movable.relocate f)⟩
instance {α β : Type} [Movable α] [Movable β] : Movable (α × β) :=
  ⟨fun f => Prod.map (Movable.relocate f) (Movable.relocate f)⟩

namespace TokenStream

variable {f : Pos → Pos} {s : TokenStream} {i : Nat}

theorem relocate_kinds : (s.relocate f).tokens.map (·.kind) = s.tokens.map (·.kind) := List.map_map

theorem relocate_length : (s.relocate f).tokens.length = s.tokens.length := List.length_map _

@[simp] theorem cursor_relocate_kind : ((s.relocate f).cursor i).kind = (s.cursor i).kind :=
  cursor_kind_congr relocate_kinds i

@[simp] theorem cursor_relocate_pos : ((s.relocate f).cursor i).pos = f (s.cursor i).pos := by
  rw [cursor_pos, cursor_pos, relocate, List.getElem?_map]
  cases s.tokens[i]? <;> rfl

theorem cursor_relocate_lastLine (m : Shift) : ((s.relocate m.move).cursor i).lastLine = (s.cursor i).lastLine := by
  rw [cursor, relocate, ← List.map_take, List.getLast?_map, Option.map_map]
  exact congrArg (fun line => (Option.map line _).getD 0) (funext fun t => m.keeps t.pos)

end TokenStream

end Sketch
