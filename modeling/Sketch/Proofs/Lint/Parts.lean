import Sketch.Proofs.Syntax.Nodes
import Sketch.Proofs.Syntax.RelocatedCompile

/-!
The faults of a program: what is wrong with its declarations, and then with each of its parts by itself.
-/

namespace Sketch

namespace Node

/-- What a part writes to by name, and where. -/
def write? : Node → Option (String × Pos)
  | .stmt (.declare name _ pos) | .stmt (.assign (.name name) _ _ pos) | .stmt (.count name _ _ _ _ pos) =>
    some (name, pos)
  | _ => none

/-- The function that a part calls by name, and where. -/
def call? : Node → Option (String × Pos)
  | .expr (.call callee _ pos) => some (callee, pos)
  | _ => none

end Node

namespace Lint

variable (known : String → Bool)

/-- A call of a function that is not known. -/
def callFaults (name : String) (pos : Pos) : List Diagnostic :=
  if known name then [] else [⟨.unknownFunction name, pos⟩]

/-- The faults of a part by itself. A part writes or calls, or does neither. -/
def ownFaults (n : Node) : List Diagnostic :=
  (n.write?.elim [] fun write => writeFaults write.1 write.2) ++
    n.call?.elim [] fun call => callFaults known call.1 call.2

/-- The faults of a part and of all below it. -/
def nodeFaults : Node → List Diagnostic
  | .expr e => exprFaults known e
  | .stmt s => stmtFaults known s

theorem flatMap_exprs (items : List Expr) :
    (items.map Node.expr).flatMap (nodeFaults known) = items.flatMap (exprFaults known) := List.flatMap_map ..

theorem flatMap_stmts (body : List Stmt) :
    (body.map Node.stmt).flatMap (nodeFaults known) = blockFaults known body := by
  rw [blockFaults_eq_flatMap, List.flatMap_map]
  rfl

theorem optionFaults_eq_flatMap (e : Option Expr) : optionFaults known e = e.toList.flatMap (exprFaults known) := by
  cases e with
  | none => rfl
  | some e => exact (List.append_nil _).symm

theorem nodeFaults_expr (e : Expr) :
    exprFaults known e = ownFaults known (.expr e) ++ (Node.expr e).children.flatMap (nodeFaults known) := by
  cases e with
  | num | bool | str | nil | ident => rfl
  | call callee args pos =>
    rw [Node.children, flatMap_exprs, exprFaults, exprsFaults_eq_flatMap]
    rfl
  | list items pos =>
    rw [Node.children, flatMap_exprs, exprFaults, exprsFaults_eq_flatMap]
    rfl
  | method object name args pos =>
    rw [Node.children, flatMap_exprs, exprFaults, exprsFaults_eq_flatMap, List.flatMap_cons]
    rfl
  | map entries pos =>
    rw [Node.children, flatMap_exprs, exprFaults, entriesFaults_eq_flatMap, List.flatMap_map]
    rfl
  | bin | un | field | index =>
    simp [Node.children, nodeFaults, exprFaults, ownFaults, Node.write?, Node.call?]

/-- The faults of a statement are its own and those of its parts. -/
theorem nodeFaults_stmt (s : Stmt) :
    stmtFaults known s = ownFaults known (.stmt s) ++ (Node.stmt s).children.flatMap (nodeFaults known) := by
  cases s with
  | declare name init pos =>
    rw [Node.children, flatMap_exprs, stmtFaults, optionFaults_eq_flatMap]
    simp [ownFaults, Node.write?, Node.call?]
  | assign target op value pos =>
    rw [Node.children, flatMap_exprs, stmtFaults]
    cases target <;> simp [ownFaults, Node.write?, Node.call?, Target.parts, targetFaults]
  | branch branches otherwise pos =>
    rw [Node.children, List.flatMap_append, flatMap_stmts, stmtFaults_branch, branchesFaults_eq_flatMap]
    have each (branch : Expr × List Stmt) :
        (Node.expr branch.1 :: branch.2.map Node.stmt).flatMap (nodeFaults known) =
          exprFaults known branch.1 ++ blockFaults known branch.2 := by
      rw [List.flatMap_cons, flatMap_stmts]
      rfl
    rw [List.flatMap_assoc]
    simp only [each]
    cases otherwise <;> rfl
  | count var start stop step body pos =>
    rw [Node.children, List.flatMap_append, flatMap_exprs, flatMap_stmts, stmtFaults, optionFaults_eq_flatMap]
    simp [ownFaults, Node.write?, Node.call?]
  | clauses init test step body pos =>
    simp only [Node.children, List.flatMap_append, flatMap_exprs, flatMap_stmts, stmtFaults_clauses,
      optionFaults_eq_flatMap, blockFaults_eq_flatMap]
    cases init <;> cases step <;> simp [ownFaults, Node.write?, Node.call?]
  | whileDo test body pos =>
    rw [Node.children, List.flatMap_cons, flatMap_stmts, stmtFaults]
    rfl
  | ret value pos =>
    rw [Node.children, flatMap_exprs, stmtFaults, optionFaults_eq_flatMap]
    rfl
  | eval e =>
    rw [Node.children, List.flatMap_singleton, stmtFaults]
    rfl

theorem nodeFaults_eq (n : Node) : nodeFaults known n = n.all.flatMap (ownFaults known) := by
  induction n using Node.inductionOn with
  | _ n ih =>
    have own : nodeFaults known n = ownFaults known n ++ n.children.flatMap (nodeFaults known) := by
      cases n with
      | expr e => exact nodeFaults_expr known e
      | stmt s => exact nodeFaults_stmt known s
    rw [own, Node.all_eq, List.flatMap_cons, List.flatMap_assoc, List.flatMap_congr ih]

/-- The faults of a program are those of its declarations and of each part by itself. -/
theorem lint_eq (p : Program) :
    lint p = declarationFaults [] p.functions ++ frameFaults p ++ p.nodes.flatMap (ownFaults (isKnown p)) := by
  have item (i : Item) : itemFaults (isKnown p) i = i.body.flatMap (stmtFaults (isKnown p)) := by
    cases i with
    | function f => exact blockFaults_eq_flatMap f.body
    | stmt s => exact (List.append_nil _).symm
  rw [lint, Program.nodes, List.flatMap_assoc, List.flatMap_assoc]
  congr 1
  apply List.flatMap_congr
  intro i _
  rw [item]
  apply List.flatMap_congr
  intro s _
  exact nodeFaults_eq _ (.stmt s)

end Lint

end Sketch
