import Mathlib.Data.List.Basic
import Sketch.Proofs.Syntax.Trees

/-!
The parts of a program. What a part consists of is said once, level by level, and all that is proved of the parts
rests on this.
-/

namespace Sketch

/-- A part of a program: an expression or a statement. -/
inductive Node where
  | expr (e : Expr)
  | stmt (s : Stmt)
deriving Inhabited

/-- The expressions in what an assignment writes to. -/
def Target.parts : Target → List Expr
  | .name _ => []
  | .index object key => [object, key]
  | .field object _ => [object]

namespace Node

/-- The parts right below a part, in source order. -/
def children : Node → List Node
  | .expr (.num ..) | .expr (.bool ..) | .expr (.str ..) | .expr (.nil _) | .expr (.ident ..) => []
  | .expr (.bin _ left right _) => [left, right].map .expr
  | .expr (.un _ operand _) => [operand].map .expr
  | .expr (.call _ args _) => args.map .expr
  | .expr (.method object _ args _) => (object :: args).map .expr
  | .expr (.field object _ _) => [object].map .expr
  | .expr (.index object key _) => [object, key].map .expr
  | .expr (.list items _) => items.map .expr
  | .expr (.map entries _) => (entries.map (·.2)).map .expr
  | .stmt (.declare _ init _) => init.toList.map .expr
  | .stmt (.assign target _ value _) => (target.parts ++ [value]).map .expr
  | .stmt (.branch branches otherwise _) =>
    branches.flatMap (fun branch => .expr branch.1 :: branch.2.map .stmt) ++ (otherwise.getD []).map .stmt
  | .stmt (.count _ start stop step body _) => (start :: stop :: step.toList).map .expr ++ body.map .stmt
  | .stmt (.clauses init test step body _) =>
    init.toList.map .stmt ++ test.toList.map .expr ++ (step.toList ++ body).map .stmt
  | .stmt (.whileDo test body _) => .expr test :: body.map .stmt
  | .stmt (.ret value _) => value.toList.map .expr
  | .stmt (.eval e) => [.expr e]

section Induction

variable {motive : Node → Prop} (above : ∀ n, (∀ c ∈ n.children, motive c) → motive n)

include above

theorem inductionOnExpr (e : Expr) : motive (.expr e) := by
  induction e using Expr.inductionOn with
  | num | bool | str | nil | ident => exact above _ (List.forall_mem_nil motive)
  | call callee args pos each => exact above _ (List.forall_mem_map.mpr each)
  | list items pos each => exact above _ (List.forall_mem_map.mpr each)
  | map entries pos each => exact above _ (List.forall_mem_map.mpr (List.forall_mem_map.mpr each))
  | method object name args pos ofObject each =>
    exact above _ (List.forall_mem_map.mpr (List.forall_mem_cons.mpr ⟨ofObject, each⟩))
  | bin | un | field | index =>
    apply above
    simp_all [children]

/-- What holds of a part if it holds right below it holds of every part. -/
@[elab_as_elim]
theorem inductionOn (n : Node) : motive n := by
  have exprs (items : List Expr) : ∀ c ∈ items.map expr, motive c :=
    List.forall_mem_map.mpr fun e _ => inductionOnExpr above e
  cases n with
  | expr e => exact inductionOnExpr above e
  | stmt s =>
    induction s using Stmt.inductionOn with
    | declare | assign | ret => exact above _ (exprs _)
    | eval e => exact above _ (exprs [e])
    | branch branches otherwise pos ofBranches ofOtherwise =>
      apply above
      simp only [children, List.forall_mem_append, List.forall_mem_map, List.mem_flatMap, List.mem_cons]
      refine ⟨?_, ?_⟩
      · rintro c ⟨branch, mem, rfl | inBody⟩
        · exact inductionOnExpr above branch.1
        · exact List.forall_mem_map.mpr (ofBranches branch mem) c inBody
      · cases otherwise with
        | none => exact List.forall_mem_nil _
        | some body => exact ofOtherwise body rfl
    | count var start stop step body pos ofBody =>
      exact above _ (List.forall_mem_append.mpr ⟨exprs _, List.forall_mem_map.mpr ofBody⟩)
    | clauses init test step body pos ofInit ofStep ofBody =>
      apply above
      simp only [children, List.forall_mem_append, List.forall_mem_map, Option.mem_toList]
      exact ⟨⟨ofInit, fun e _ => inductionOnExpr above e⟩, ofStep, ofBody⟩
    | whileDo test body pos ofBody =>
      exact above _ (List.forall_mem_cons.mpr ⟨inductionOnExpr above test, List.forall_mem_map.mpr ofBody⟩)

end Induction

instance wellFoundedRelation : WellFoundedRelation Node where
  rel c n := c ∈ n.children
  wf := ⟨inductionOn Acc.intro⟩

/-- A part, and then all that is below it, in source order. -/
def all (n : Node) : List Node := n :: n.children.attach.flatMap fun c => all c.1
termination_by n
decreasing_by exact c.2

theorem all_eq (n : Node) : n.all = n :: n.children.flatMap all := by
  rw [all]
  simp

end Node

def Item.body : Item → List Stmt
  | .function f => f.body
  | .stmt s => [s]

/-- All parts of a program, in source order. -/
def Program.nodes (p : Program) : List Node := (p.items.flatMap Item.body).flatMap (Node.stmt · |>.all)

end Sketch
