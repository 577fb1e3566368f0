import Sketch.Syntax

/-!
Induction over expressions and statements. The hypotheses about lists of parts are about their members.
-/

namespace Sketch

-- The linter does not see that the parts of a mutual block use the hypotheses through one another.
set_option linter.unusedSectionVars false

section Expressions

variable {motive : Expr → Prop}
variable (num : ∀ value pos, motive (.num value pos)) (bool : ∀ value pos, motive (.bool value pos))
variable (str : ∀ text pos, motive (.str text pos)) (nil : ∀ pos, motive (.nil pos))
variable (ident : ∀ name pos, motive (.ident name pos))
variable (bin : ∀ op left right pos, motive left → motive right → motive (.bin op left right pos))
variable (un : ∀ op operand pos, motive operand → motive (.un op operand pos))
variable (call : ∀ callee args pos, (∀ e ∈ args, motive e) → motive (.call callee args pos))
variable (method : ∀ object name args pos, motive object → (∀ e ∈ args, motive e) →
  motive (.method object name args pos))
variable (field : ∀ object name pos, motive object → motive (.field object name pos))
variable (index : ∀ object key pos, motive object → motive key → motive (.index object key pos))
variable (list : ∀ items pos, (∀ e ∈ items, motive e) → motive (.list items pos))
variable (map : ∀ entries pos, (∀ entry ∈ entries, motive entry.2) → motive (.map entries pos))

include num bool str nil ident bin un call method field index list map

mutual

@[elab_as_elim]
theorem Expr.inductionOn : ∀ e, motive e
  | .num value pos => num value pos
  | .bool value pos => bool value pos
  | .str text pos => str text pos
  | .nil pos => nil pos
  | .ident name pos => ident name pos
  | .bin op left right pos => bin op left right pos (Expr.inductionOn left) (Expr.inductionOn right)
  | .un op operand pos => un op operand pos (Expr.inductionOn operand)
  | .call callee args pos => call callee args pos (Expr.inductionOnEach args)
  | .method object name args pos =>
    method object name args pos (Expr.inductionOn object) (Expr.inductionOnEach args)
  | .field object name pos => field object name pos (Expr.inductionOn object)
  | .index object key pos => index object key pos (Expr.inductionOn object) (Expr.inductionOn key)
  | .list items pos => list items pos (Expr.inductionOnEach items)
  | .map entries pos => map entries pos (Expr.inductionOnEntries entries)

theorem Expr.inductionOnEach : ∀ items : List Expr, ∀ e ∈ items, motive e
  | [] => List.forall_mem_nil motive
  | e :: rest => List.forall_mem_cons.mpr ⟨Expr.inductionOn e, Expr.inductionOnEach rest⟩

theorem Expr.inductionOnEntries : ∀ entries : List (String × Expr), ∀ entry ∈ entries, motive entry.2
  | [] => List.forall_mem_nil _
  | (_, e) :: rest => List.forall_mem_cons.mpr ⟨Expr.inductionOn e, Expr.inductionOnEntries rest⟩

end

end Expressions

section Statements

variable {motive : Stmt → Prop}
variable (declare : ∀ name init pos, motive (.declare name init pos))
variable (assign : ∀ target op value pos, motive (.assign target op value pos))
variable (branch : ∀ branches otherwise pos, (∀ branch ∈ branches, ∀ s ∈ branch.2, motive s) →
  (∀ body ∈ otherwise, ∀ s ∈ body, motive s) → motive (.branch branches otherwise pos))
variable (count : ∀ var start stop step body pos, (∀ s ∈ body, motive s) →
  motive (.count var start stop step body pos))
variable (clauses : ∀ init test step body pos, (∀ s ∈ init, motive s) → (∀ s ∈ step, motive s) →
  (∀ s ∈ body, motive s) → motive (.clauses init test step body pos))
variable (whileDo : ∀ test body pos, (∀ s ∈ body, motive s) → motive (.whileDo test body pos))
variable (ret : ∀ value pos, motive (.ret value pos)) (eval : ∀ value, motive (.eval value))

include declare assign branch count clauses whileDo ret eval

mutual

@[elab_as_elim]
theorem Stmt.inductionOn : ∀ s, motive s
  | .declare name init pos => declare name init pos
  | .assign target op value pos => assign target op value pos
  | .branch branches otherwise pos =>
    branch branches otherwise pos (Stmt.inductionOnBranches branches)
      (Stmt.inductionOnOtherwise otherwise)
  | .count var start stop step body pos => count var start stop step body pos (Stmt.inductionOnBlock body)
  | .clauses init test step body pos =>
    clauses init test step body pos (Stmt.inductionOnClause init) (Stmt.inductionOnClause step)
      (Stmt.inductionOnBlock body)
  | .whileDo test body pos => whileDo test body pos (Stmt.inductionOnBlock body)
  | .ret value pos => ret value pos
  | .eval value => eval value

theorem Stmt.inductionOnBlock : ∀ body : List Stmt, ∀ s ∈ body, motive s
  | [] => List.forall_mem_nil motive
  | s :: rest => List.forall_mem_cons.mpr ⟨Stmt.inductionOn s, Stmt.inductionOnBlock rest⟩

theorem Stmt.inductionOnBranches :
    ∀ branches : List (Expr × List Stmt), ∀ branch ∈ branches, ∀ s ∈ branch.2, motive s
  | [] => List.forall_mem_nil _
  | (_, body) :: rest =>
    List.forall_mem_cons.mpr ⟨Stmt.inductionOnBlock body, Stmt.inductionOnBranches rest⟩

theorem Stmt.inductionOnOtherwise :
    ∀ otherwise : Option (List Stmt), ∀ body ∈ otherwise, ∀ s ∈ body, motive s
  | none => fun _ mem => absurd mem (Option.not_mem_none _)
  | some body => fun _ mem => Option.mem_some_iff.mp mem ▸ Stmt.inductionOnBlock body

theorem Stmt.inductionOnClause : ∀ clause : Option Stmt, ∀ s ∈ clause, motive s
  | none => fun _ mem => absurd mem (Option.not_mem_none _)
  | some s => fun _ mem => Option.mem_some_iff.mp mem ▸ Stmt.inductionOn s

end

end Statements

end Sketch
