import Sketch.Machine.State
import Sketch.Proofs.Lint.Parts

/-!
The names that the statements of a sketch write to, and those that are left to do in a run.
-/

namespace Sketch

variable {P : String → Prop}

/-! ### Statements -/

namespace Node

/-- All names that a part writes to, by itself or below, have a property. -/
def WritesOnly (P : String → Prop) (n : Node) : Prop := ∀ part ∈ n.all, ∀ write ∈ part.write?, P write.1

theorem writesOnly_iff {n : Node} :
    n.WritesOnly P ↔ (∀ write ∈ n.write?, P write.1) ∧ ∀ c ∈ n.children, c.WritesOnly P := by
  rw [WritesOnly, all_eq, List.forall_mem_cons]
  simp only [List.mem_flatMap, forall_exists_index, and_imp]
  exact and_congr_right fun _ =>
    ⟨fun all c child part below => all part c child below, fun all part c child below => all c child part below⟩

/-- Expressions write to nothing by name. -/
theorem writesOnly_expr (e : Expr) : (expr e).WritesOnly P := by
  suffices all : ∀ n : Node, ∀ e, n = expr e → n.WritesOnly P from all _ e rfl
  intro n
  induction n using Node.inductionOn with
  | _ n below =>
    rintro e rfl
    refine writesOnly_iff.mpr ⟨fun _ writes => absurd writes (Option.not_mem_none _), ?_⟩
    intro c child
    have isExpr : ∃ e', c = expr e' := by
      cases e with
      | num | bool | str | nil | ident => cases child
      | bin | un | call | method | field | index | list | map =>
        obtain ⟨e', -, rfl⟩ := List.mem_map.mp child
        exact ⟨e', rfl⟩
    obtain ⟨e', rfl⟩ := isExpr
    exact below _ child e' rfl

end Node

def Stmt.WritesOnly (P : String → Prop) (s : Stmt) : Prop := (Node.stmt s).WritesOnly P

def BlockWritesOnly (P : String → Prop) (body : List Stmt) : Prop := ∀ s ∈ body, s.WritesOnly P

namespace Stmt

variable (pos : Pos)

theorem writesOnly_declare (name : String) (init : Option Expr) : WritesOnly P (.declare name init pos) ↔ P name := by
  rw [WritesOnly, Node.writesOnly_iff]
  simp [Node.write?, Node.children, Node.writesOnly_expr]

theorem writesOnly_assign (name : String) (op : Option BinOp) (value : Expr) :
    WritesOnly P (.assign (.name name) op value pos) ↔ P name := by
  rw [WritesOnly, Node.writesOnly_iff]
  simp [Node.write?, Node.children, Target.parts, Node.writesOnly_expr]

theorem writesOnly_branch (branches : List (Expr × List Stmt)) (otherwise : Option (List Stmt)) :
    WritesOnly P (.branch branches otherwise pos) ↔
      (∀ branch ∈ branches, BlockWritesOnly P branch.2) ∧ BlockWritesOnly P (otherwise.getD []) := by
  rw [WritesOnly, Node.writesOnly_iff, Node.children, List.forall_mem_append]
  have each (branch : Expr × List Stmt) :
      (∀ c ∈ Node.expr branch.1 :: branch.2.map Node.stmt, c.WritesOnly P) ↔ BlockWritesOnly P branch.2 := by
    simp [Node.writesOnly_expr, WritesOnly, BlockWritesOnly]
  simp only [List.forall_mem_flatMap, each]
  simp [Node.write?, WritesOnly, BlockWritesOnly]

theorem writesOnly_count (var : String) (start stop : Expr) (step : Option Expr) (body : List Stmt) :
    WritesOnly P (.count var start stop step body pos) ↔ P var ∧ BlockWritesOnly P body := by
  rw [WritesOnly, Node.writesOnly_iff]
  simp [Node.write?, Node.children, Node.writesOnly_expr, WritesOnly, BlockWritesOnly, or_imp, forall_and]

theorem writesOnly_clauses (init : Option Stmt) (test : Option Expr) (step : Option Stmt) (body : List Stmt) :
    WritesOnly P (.clauses init test step body pos) ↔
      (∀ s ∈ init, s.WritesOnly P) ∧ (∀ s ∈ step, s.WritesOnly P) ∧ BlockWritesOnly P body := by
  rw [WritesOnly, Node.writesOnly_iff]
  simp [Node.write?, Node.children, Node.writesOnly_expr, WritesOnly, BlockWritesOnly, or_imp, forall_and]

theorem writesOnly_whileDo (test : Expr) (body : List Stmt) :
    WritesOnly P (.whileDo test body pos) ↔ BlockWritesOnly P body := by
  rw [WritesOnly, Node.writesOnly_iff]
  simp [Node.write?, Node.children, Node.writesOnly_expr, WritesOnly, BlockWritesOnly, or_imp, forall_and]

end Stmt

/-! ### What is left to do -/

/-- All names that a continuation comes to write to have a property. -/
def Cont.WritesOnly (P : String → Prop) : Cont → Prop
  | .write (.name name) _ _ => P name
  | .branch body rest otherwise =>
    BlockWritesOnly P body ∧ (∀ branch ∈ rest, BlockWritesOnly P branch.2) ∧ BlockWritesOnly P (otherwise.getD [])
  | .countStart c .. | .countStop c .. | .countStep c .. | .countNext c .. => P c.var ∧ BlockWritesOnly P c.body
  | .whileTest _ body | .whileNext _ body | .block body => BlockWritesOnly P body
  | .clausesStart c | .clausesTest c | .clausesStep c =>
    (∀ s ∈ c.step, s.WritesOnly P) ∧ BlockWritesOnly P c.body
  | _ => True

def Control.WritesOnly (P : String → Prop) : Control → Prop
  | .exec s => s.WritesOnly P
  | _ => True

/-- What holds of all names that a control and continuations write to, something else has too. -/
def Control.Keeps (control : Control) (used : List Cont) (Q : (String → Prop) → Prop) : Prop :=
  ∀ P, control.WritesOnly P → (∀ k ∈ used, k.WritesOnly P) → Q P

theorem Cont.keeps (control : Control) (k : Cont) : control.Keeps [k] (k.WritesOnly ·) :=
  fun _ _ writes => List.forall_mem_singleton.mp writes

/-- All names that the functions of a script write to have a property. -/
def Script.WritesOnly (P : String → Prop) (script : Script) : Prop :=
  ∀ f ∈ script.functions, BlockWritesOnly P f.body

end Sketch
