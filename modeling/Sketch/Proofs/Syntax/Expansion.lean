import Sketch.Proofs.Syntax.Nodes
import Sketch.Proofs.Syntax.RelocatedCompile

/-!
The expansion of a program: the same program without short forms, with plain assignments, nested branches, and loops
with a test only.
-/

namespace Sketch

/-- Whether an operator may leave its right operand alone. -/
def BinOp.isConnective : BinOp → Bool
  | .and | .or => true
  | _ => false

namespace Stmt

/-- Whether a statement is a declaration, an assignment or an expression. -/
def isPlain : Stmt → Bool
  | .declare .. | .assign .. | .eval _ => true
  | .branch .. | .count .. | .clauses .. | .whileDo .. | .ret .. => false

/-- The expansion of a plain statement. There is no such form for a connective. -/
def plain : Stmt → Stmt
  | .declare name (some init) pos => .assign (.name name) none init pos
  | .assign (.name name) (some op) value pos =>
    if op.isConnective then .assign (.name name) (some op) value pos
    else .assign (.name name) none (.bin op (.ident name pos) value pos) pos
  | s => s

/-- What the expansion of a statement begins with: the first clause of a loop. -/
def lead : Stmt → List Stmt
  | .clauses (some init) _ step _ _ => if init.isPlain && step.all isPlain then [init.plain] else []
  | _ => []

/-- A chain of branches as branches within one another, each with two ways at most. -/
def nest : List (Expr × List Stmt) → Option (List Stmt) → Pos → Stmt
  | [], otherwise, pos => .branch [] otherwise pos
  | first :: rest, otherwise, pos =>
    .branch [first] (if rest.isEmpty then otherwise else some [nest rest otherwise pos]) pos

/-- Two parts of an expansion as one statement. -/
def fuse (lead : List Stmt) (main : Stmt) (pos : Pos) : Stmt :=
  if lead.isEmpty then main else .branch [(.bool true pos, lead ++ [main])] none pos

mutual

/-- The expansion of a statement, but for what it begins with. -/
def main : Stmt → Stmt
  | .declare name init pos => (Stmt.declare name init pos).plain
  | .assign target op value pos => (Stmt.assign target op value pos).plain
  | .branch branches otherwise pos => nest (expandBranches branches) (expandOtherwise otherwise) pos
  | .count var start stop step body pos => .count var start stop step (expandBlock body) pos
  | .clauses init test step body pos =>
    if init.all isPlain && step.all isPlain then
      .whileDo (test.getD (.bool true pos)) (expandBlock body ++ step.toList.map plain) pos
    else .clauses (expandClause init) test (expandClause step) (expandBlock body) pos
  | .whileDo test body pos => .whileDo test (expandBlock body) pos
  | .ret value pos => .ret value pos
  | .eval value => .eval value

def expandBlock : List Stmt → List Stmt
  | [] => []
  | s :: rest => s.lead ++ s.main :: expandBlock rest

def expandBranches : List (Expr × List Stmt) → List (Expr × List Stmt)
  | [] => []
  | (test, body) :: rest => (test, expandBlock body) :: expandBranches rest

def expandOtherwise : Option (List Stmt) → Option (List Stmt)
  | none => none
  | some body => some (expandBlock body)

/-- Where there is room for one statement only, the expansion is made one. -/
def expandClause : Option Stmt → Option Stmt
  | none => none
  | some s => some (fuse s.lead s.main s.pos)

end

theorem lead_clauses (init : Option Stmt) (test : Option Expr) (step : Option Stmt) (body : List Stmt) (pos : Pos) :
    (Stmt.clauses init test step body pos).lead =
      if init.all isPlain && step.all isPlain then init.toList.map plain else [] := by
  cases init with
  | none => exact (ite_self _).symm
  | some init => rfl

def expand (s : Stmt) : List Stmt := s.lead ++ [s.main]

/-- The expansion of a statement where there is room for one only. -/
def expandOne (s : Stmt) : Stmt := fuse s.lead s.main s.pos

def expandBranch (branch : Expr × List Stmt) : Expr × List Stmt := (branch.1, branch.2.flatMap expand)

@[simp] theorem expandBlock_eq_flatMap (body : List Stmt) : expandBlock body = body.flatMap expand := by
  induction body with
  | nil => rfl
  | cons s rest ih =>
    rw [expandBlock, ih, List.flatMap_cons, expand, List.append_assoc]
    rfl

@[simp] theorem expandBranches_eq_map (branches : List (Expr × List Stmt)) :
    expandBranches branches = branches.map expandBranch := by
  induction branches with
  | nil => rfl
  | cons branch rest ih =>
    rw [expandBranches, ih, expandBlock_eq_flatMap]
    rfl

@[simp] theorem expandOtherwise_eq_map (otherwise : Option (List Stmt)) :
    expandOtherwise otherwise = otherwise.map (List.flatMap expand) := by
  cases otherwise with
  | none => rfl
  | some body => rw [expandOtherwise, expandBlock_eq_flatMap, Option.map_some]

@[simp] theorem expandClause_eq_map (clause : Option Stmt) : expandClause clause = clause.map expandOne := by
  cases clause <;> rfl

end Stmt

def FnDef.expand (f : FnDef) : FnDef := ⟨f.name, f.params, f.body.flatMap Stmt.expand, f.pos⟩

def Item.expand : Item → List Item
  | .function f => [.function f.expand]
  | .stmt s => s.expand.map .stmt

def Program.expand (p : Program) : Program := ⟨p.items.flatMap Item.expand⟩

/-- One program is the expansion of another, wherever its parts stand. -/
def Program.ExpandsTo (p p' : Program) : Prop :=
  p'.relocate (fun _ => .nowhere) = p.expand.relocate fun _ => .nowhere

/-! ### Places -/

section Places

variable (f : Pos → Pos)

namespace Stmt

@[simp] theorem isPlain_relocate (s : Stmt) : (s.relocate f).isPlain = s.isPlain := by
  cases s <;> rfl

theorem all_isPlain_relocate (clause : Option Stmt) :
    (clause.map (Stmt.relocate f)).all isPlain = clause.all isPlain := by
  cases clause with
  | none => rfl
  | some s => exact isPlain_relocate f s

theorem plain_relocate (s : Stmt) : (s.relocate f).plain = s.plain.relocate f := by
  cases s with
  | declare name init pos => cases init <;> rfl
  | assign target op value pos =>
    cases target with
    | index | field => rfl
    | name name =>
      cases op with
      | none => rfl
      | some op =>
        simp only [relocate, Target.relocate, plain]
        split <;> rfl
  | _ => rfl

theorem lead_relocate (s : Stmt) : (s.relocate f).lead = s.lead.map (Stmt.relocate f) := by
  cases s with
  | clauses init test step body pos =>
    cases init with
    | none => rfl
    | some init =>
      simp only [relocate, relocateClause_eq_map, Option.map_some, lead, isPlain_relocate, all_isPlain_relocate,
        plain_relocate]
      split <;> rfl
  | _ => rfl

theorem nest_relocate (branches : List (Expr × List Stmt)) (otherwise : Option (List Stmt)) (pos : Pos) :
    (nest branches otherwise pos).relocate f =
      nest (branches.map (relocateBranch f)) (otherwise.map (List.map (Stmt.relocate f))) (f pos) := by
  induction branches with
  | nil =>
    rw [nest, relocate, relocateBranches_eq_map, relocateOtherwise_eq_map]
    rfl
  | cons branch rest ih =>
    rw [List.map_cons, nest, nest, relocate, relocateBranches_eq_map, relocateOtherwise_eq_map, List.isEmpty_map]
    cases rest.isEmpty with
    | true => rfl
    | false => simp [ih]

theorem fuse_relocate (lead : List Stmt) (main : Stmt) (pos : Pos) :
    (fuse lead main pos).relocate f = fuse (lead.map (Stmt.relocate f)) (main.relocate f) (f pos) := by
  cases lead with
  | nil => rfl
  | cons first rest =>
    simp [fuse, relocate, relocateBranch, Expr.relocate]

theorem flatMap_expand_relocate {body : List Stmt} (each : ∀ s ∈ body, (s.relocate f).main = s.main.relocate f) :
    (body.map (Stmt.relocate f)).flatMap expand = (body.flatMap expand).map (Stmt.relocate f) := by
  rw [List.flatMap_map, List.map_flatMap]
  apply List.flatMap_congr
  intro s mem
  rw [expand, expand, lead_relocate, each s mem, List.map_append]
  rfl

/-- The expansion does not depend on where a statement stands. -/
theorem main_relocate (s : Stmt) : (s.relocate f).main = s.main.relocate f := by
  have clause {s : Option Stmt} (each : ∀ t ∈ s, (t.relocate f).main = t.main.relocate f) :
      (s.map (Stmt.relocate f)).map expandOne = (s.map expandOne).map (Stmt.relocate f) := by
    cases s with
    | none => rfl
    | some s =>
      rw [Option.map_some, Option.map_some, Option.map_some, Option.map_some, expandOne, expandOne, fuse_relocate,
        lead_relocate, each s rfl, relocate_pos]
  induction s using Stmt.inductionOn with
  | declare name init pos => exact plain_relocate f (.declare name init pos)
  | assign target op value pos => exact plain_relocate f (.assign target op value pos)
  | branch branches otherwise pos branchesEq otherwiseEq =>
    simp only [relocate, relocateBranches_eq_map, relocateOtherwise_eq_map, main, expandBranches_eq_map,
      expandOtherwise_eq_map, nest_relocate, List.map_map, Option.map_map]
    congr 1
    · apply List.map_congr_left
      intro branch mem
      exact Prod.ext rfl (flatMap_expand_relocate f (branchesEq branch mem))
    · apply Option.map_congr
      intro body mem
      exact flatMap_expand_relocate f (otherwiseEq body mem)
  | count var start stop step body pos bodyEq =>
    simp only [relocate, relocateBlock_eq_map, main, expandBlock_eq_flatMap, flatMap_expand_relocate f bodyEq]
  | clauses init test step body pos initEq stepEq bodyEq =>
    simp only [relocate, relocateBlock_eq_map, relocateClause_eq_map, main, expandBlock_eq_flatMap,
      expandClause_eq_map, all_isPlain_relocate, flatMap_expand_relocate f bodyEq, clause initEq, clause stepEq]
    split
    · have tested : (test.map (Expr.relocate f)).getD (.bool true (f pos)) =
          (test.getD (.bool true pos)).relocate f := by
        cases test <;> rfl
      have stepped : (step.map (Stmt.relocate f)).toList.map plain =
          (step.toList.map plain).map (Stmt.relocate f) := by
        cases step with
        | none => rfl
        | some step => exact congrArg (fun s => [s]) (plain_relocate f step)
      rw [tested, stepped, relocate, relocateBlock_eq_map, List.map_append]
    · rw [relocate, relocateBlock_eq_map, relocateClause_eq_map, relocateClause_eq_map]
  | whileDo test body pos bodyEq =>
    simp only [relocate, relocateBlock_eq_map, main, expandBlock_eq_flatMap, flatMap_expand_relocate f bodyEq]
  | ret value pos => rfl
  | eval e => rfl

theorem map_expand_relocate (body : List Stmt) :
    (body.map (Stmt.relocate f)).flatMap expand = (body.flatMap expand).map (Stmt.relocate f) :=
  flatMap_expand_relocate f fun s _ => main_relocate f s

end Stmt

theorem FnDef.expand_relocate (d : FnDef) : (d.relocate f).expand = d.expand.relocate f := by
  rw [expand, relocate, Stmt.map_expand_relocate]
  rfl

/-- The expansion does not depend on where a program stands. -/
theorem Program.expand_relocate (p : Program) : (p.relocate f).expand = p.expand.relocate f := by
  rw [expand, relocate, expand, relocate, List.flatMap_map, List.map_flatMap]
  congr 1
  apply List.flatMap_congr
  intro i _
  cases i with
  | function d => exact congrArg (fun d => [Item.function d]) (FnDef.expand_relocate f d)
  | stmt s =>
    have same := Stmt.map_expand_relocate f [s]
    rw [List.map_singleton, List.flatMap_singleton, List.flatMap_singleton] at same
    rw [Item.relocate, Item.expand, Item.expand, same, List.map_map, List.map_map]
    rfl

end Places

/-! ### Parts of the expansion -/

namespace Program

theorem expand_functions (p : Program) : p.expand.functions = p.functions.map FnDef.expand := by
  obtain ⟨items⟩ := p
  induction items with
  | nil => rfl
  | cons i items ih =>
    simp only [functions, expand] at ih
    cases i with
    | function d => simp [functions, expand, Item.expand, ih]
    | stmt s => simp [functions, expand, Item.expand, ih, List.filterMap_append]

theorem expand_topLevel (p : Program) : p.expand.topLevel = p.topLevel.flatMap Stmt.expand := by
  obtain ⟨items⟩ := p
  induction items with
  | nil => rfl
  | cons i items ih =>
    simp only [topLevel, expand] at ih
    cases i with
    | function d => simp [topLevel, expand, Item.expand, ih]
    | stmt s =>
      simp [topLevel, expand, Item.expand, ih, List.filterMap_append, List.filterMap_map]

theorem expand_function? (p : Program) (name : String) :
    p.expand.function? name = (p.function? name).map FnDef.expand := by
  rw [function?, function?, expand_functions, List.find?_map]
  rfl

theorem expand_frameFunction? (p : Program) : p.expand.frameFunction? = p.frameFunction? := by
  rw [frameFunction?, frameFunction?]
  simp only [expand_function?, Option.isSome_map]

end Program

end Sketch
