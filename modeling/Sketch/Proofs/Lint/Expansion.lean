import Mathlib.Data.List.Perm.Basic
import Sketch.Proofs.Lint.Parts
import Sketch.Proofs.Syntax.Expansion

/-!
The expansion of a program has the faults of the program, in another order: the last clause of a loop ends up behind
its body.
-/

namespace Sketch

/-- A fault without the line it names. -/
def Fault.bare : Fault → Fault
  | .duplicateFunction name _ => .duplicateFunction name 0
  | fault => fault

namespace Lint

/-- The same faults, each as often, at any places. -/
def Alike (faults faults' : List Diagnostic) : Prop :=
  (faults.map (·.fault.bare)).Perm (faults'.map (·.fault.bare))

theorem Alike.refl (faults : List Diagnostic) : Alike faults faults := List.Perm.refl _

theorem Alike.symm {faults faults' : List Diagnostic} (alike : Alike faults faults') : Alike faults' faults :=
  List.Perm.symm alike

/-! ### Statements -/

section Statements

variable (known : String → Bool)

theorem stmtFaults_plain (s : Stmt) : stmtFaults known s.plain = stmtFaults known s := by
  cases s with
  | declare name init pos => cases init <;> rfl
  | assign target op value pos =>
    cases target with
    | index | field => rfl
    | name name =>
      cases op with
      | none => rfl
      | some op =>
        rw [Stmt.plain]
        split <;> rfl
  | _ => rfl

theorem stmtFaults_nest (branches : List (Expr × List Stmt)) (otherwise : Option (List Stmt)) (pos : Pos) :
    stmtFaults known (Stmt.nest branches otherwise pos) = stmtFaults known (.branch branches otherwise pos) := by
  induction branches with
  | nil => rfl
  | cons first rest ih =>
    rw [Stmt.nest]
    cases rest with
    | nil => rfl
    | cons second rest =>
      rw [stmtFaults_branch] at ih
      simp [stmtFaults_branch, branchesFaults, blockFaults, ih]

theorem stmtFaults_fuse (lead : List Stmt) (main : Stmt) (pos : Pos) :
    stmtFaults known (Stmt.fuse lead main pos) = blockFaults known (lead ++ [main]) := by
  cases lead with
  | nil => exact (List.append_nil _).symm
  | cons first rest => simp [Stmt.fuse, stmtFaults_branch, branchesFaults, exprFaults]

theorem blockFaults_append (body rest : List Stmt) :
    blockFaults known (body ++ rest) = blockFaults known body ++ blockFaults known rest := by
  simp only [blockFaults_eq_flatMap, List.flatMap_append]

variable {known} in
/-- A block keeps its faults if its statements do. -/
theorem blockFaults_perm {body : List Stmt}
    (each : ∀ s ∈ body, (blockFaults known s.expand).Perm (stmtFaults known s)) :
    (blockFaults known (body.flatMap Stmt.expand)).Perm (blockFaults known body) := by
  rw [blockFaults_eq_flatMap, blockFaults_eq_flatMap, List.flatMap_assoc]
  apply List.Perm.flatMap_left
  intro s mem
  rw [← blockFaults_eq_flatMap]
  exact each s mem

variable {known} in
theorem clauseFaults_perm {clause : Option Stmt}
    (each : ∀ s ∈ clause, (blockFaults known s.expand).Perm (stmtFaults known s)) :
    ((clause.map Stmt.expandOne).elim [] (stmtFaults known)).Perm (clause.elim [] (stmtFaults known)) := by
  cases clause with
  | none => exact .refl _
  | some s =>
    rw [Option.map_some, Option.elim_some, Option.elim_some, Stmt.expandOne, stmtFaults_fuse]
    exact each s rfl

/-- The expansion of a statement has its faults. -/
theorem expandFaults_perm (s : Stmt) : (blockFaults known s.expand).Perm (stmtFaults known s) := by
  have alone {s : Stmt} (none : s.lead = []) : blockFaults known s.expand = stmtFaults known s.main := by
    rw [Stmt.expand, none]
    exact List.append_nil _
  induction s using Stmt.inductionOn with
  | declare name init pos =>
    rw [alone rfl]
    exact .of_eq (stmtFaults_plain known (.declare name init pos))
  | assign target op value pos =>
    rw [alone rfl]
    exact .of_eq (stmtFaults_plain known (.assign target op value pos))
  | branch branches otherwise pos branchesPerm otherwisePerm =>
    rw [alone rfl, Stmt.main, stmtFaults_nest, stmtFaults_branch, stmtFaults_branch, Stmt.expandBranches_eq_map,
      Stmt.expandOtherwise_eq_map, branchesFaults_eq_flatMap, branchesFaults_eq_flatMap, List.flatMap_map]
    apply List.Perm.append
    · apply List.Perm.flatMap_left
      intro branch mem
      exact (blockFaults_perm (branchesPerm branch mem)).append_left _
    · cases otherwise with
      | none => exact .refl _
      | some body => exact blockFaults_perm (otherwisePerm body rfl)
  | count var start stop step body pos bodyPerm =>
    rw [alone rfl, Stmt.main, Stmt.expandBlock_eq_flatMap, stmtFaults, stmtFaults]
    exact (blockFaults_perm bodyPerm).append_left _
  | clauses init test step body pos initPerm stepPerm bodyPerm =>
    rw [Stmt.expand, blockFaults_append, stmtFaults_clauses, Stmt.main, Stmt.lead_clauses,
      Stmt.expandBlock_eq_flatMap]
    split
    case isFalse =>
      rw [Stmt.expandClause_eq_map, Stmt.expandClause_eq_map, blockFaults, blockFaults, blockFaults,
        List.append_nil, List.nil_append, stmtFaults_clauses]
      exact (((clauseFaults_perm initPerm).append_right _).append (clauseFaults_perm stepPerm)).append
        (blockFaults_perm bodyPerm)
    case isTrue =>
      have clause (s : Option Stmt) :
          blockFaults known (s.toList.map Stmt.plain) = s.elim [] (stmtFaults known) := by
        cases s with
        | none => rfl
        | some s => exact (List.append_nil _).trans (stmtFaults_plain known s)
      have tested : exprFaults known (test.getD (.bool true pos)) = optionFaults known test := by
        cases test <;> rfl
      rw [blockFaults, blockFaults, List.append_nil, stmtFaults, blockFaults_append, clause, clause, tested,
        List.append_assoc, List.append_assoc]
      -- The last clause and the body change places.
      exact ((((blockFaults_perm bodyPerm).append_right _).trans List.perm_append_comm).append_left _).append_left _
  | whileDo test body pos bodyPerm =>
    rw [alone rfl, Stmt.main, Stmt.expandBlock_eq_flatMap, stmtFaults, stmtFaults]
    exact (blockFaults_perm bodyPerm).append_left _
  | ret value pos => exact .of_eq (alone rfl)
  | eval e => exact .of_eq (alone rfl)

end Statements

/-! ### Programs -/

theorem isKnown_expand (p : Program) : isKnown p.expand = isKnown p := by
  funext name
  rw [isKnown, isKnown, Program.expand_function?, Option.isSome_map]

theorem frameFaults_expand (p : Program) : frameFaults p.expand = frameFaults p := by
  rw [frameFaults, frameFaults, Program.expand_function?, Program.expand_function?]
  cases p.function? "loop" with
  | none => rfl
  | some loop => cases p.function? "draw" <;> rfl

theorem declarationFaults_expand (before ds : List FnDef) :
    declarationFaults (before.map FnDef.expand) (ds.map FnDef.expand) = declarationFaults before ds := by
  induction ds generalizing before with
  | nil => rfl
  | cons d ds ih =>
    have rest := ih (before ++ [d])
    rw [List.map_append] at rest
    have found : (before.map FnDef.expand).find? (·.name = d.expand.name) =
        (before.find? (·.name = d.name)).map FnDef.expand := List.find?_map
    rw [List.map_cons, declarationFaults, declarationFaults, ← rest, found]
    cases before.find? (·.name = d.name) <;> rfl

theorem itemFaults_expand (known : String → Bool) (i : Item) :
    (i.expand.flatMap (itemFaults known)).Perm (itemFaults known i) := by
  cases i with
  | function d =>
    rw [Item.expand, List.flatMap_singleton]
    exact blockFaults_perm fun s _ => expandFaults_perm known s
  | stmt s =>
    have block : (s.expand.map Item.stmt).flatMap (itemFaults known) = blockFaults known s.expand := by
      rw [List.flatMap_map, blockFaults_eq_flatMap]
      rfl
    rw [Item.expand, block]
    exact expandFaults_perm known s

/-- The expansion of a program has its faults. -/
theorem lint_expand (p : Program) : (lint p.expand).Perm (lint p) := by
  have declarations : declarationFaults [] (p.functions.map FnDef.expand) = _ :=
    declarationFaults_expand [] p.functions
  rw [lint, lint, Program.expand_functions, declarations, frameFaults_expand, isKnown_expand, Program.expand,
    List.flatMap_assoc]
  apply List.Perm.append_left
  apply List.Perm.flatMap_left
  intro i _
  exact itemFaults_expand _ i

/-! ### Places -/

theorem bare_relocate (f : Pos → Pos) (faults : List Diagnostic) :
    (faults.map (Diagnostic.relocate f)).map (·.fault.bare) = faults.map (·.fault.bare) := by
  rw [List.map_map]
  rfl

/-- Declarations have the same faults wherever they stand. -/
theorem declarationFaults_bare_relocate (f : Pos → Pos) (before ds : List FnDef) :
    (declarationFaults (before.map (FnDef.relocate f)) (ds.map (FnDef.relocate f))).map (·.fault.bare) =
      (declarationFaults before ds).map (·.fault.bare) := by
  induction ds generalizing before with
  | nil => rfl
  | cons d ds ih =>
    have rest := ih (before ++ [d])
    rw [List.map_append] at rest
    have found : (before.map (FnDef.relocate f)).find? (·.name = (d.relocate f).name) =
        (before.find? (·.name = d.name)).map (FnDef.relocate f) := List.find?_map
    rw [List.map_cons, declarationFaults, declarationFaults, List.map_append, List.map_append, ← rest, found]
    congr 1
    cases before.find? (·.name = d.name) with
    | some first => rfl
    | none =>
      have params : ((d.relocate f).params ≠ []) = (d.params ≠ []) := by
        rw [FnDef.relocate, ne_eq, List.map_eq_nil_iff]
      have name : (d.relocate f).name = d.name := rfl
      simp only [Option.map_none, params, name]
      split <;> rfl

theorem lint_bare_relocate (f : Pos → Pos) (p : Program) :
    (lint (p.relocate f)).map (·.fault.bare) = (lint p).map (·.fault.bare) := by
  have declarations := declarationFaults_bare_relocate f [] p.functions
  rw [lint, lint, Program.relocate_functions, frameFaults_relocate, isKnown_relocate, Program.relocate,
    flatMap_relocate fun i _ => itemFaults_relocate i, List.map_append, List.map_append, bare_relocate, bare_relocate,
    List.map_append, List.map_append, ← declarations]
  rfl

/-- A program has the faults of its expansion, wherever the parts of that stand. -/
theorem lint_of_expandsTo {p p' : Program} (expands : p.ExpandsTo p') : Alike (lint p) (lint p') := by
  have same : (lint p').map (·.fault.bare) = (lint p.expand).map (·.fault.bare) := by
    rw [← lint_bare_relocate fun _ => .nowhere, expands, lint_bare_relocate]
  rw [Alike, same]
  exact (lint_expand p).symm.map _

end Lint

/-! ### Verdicts -/

theorem Fault.code_bare (fault : Fault) : fault.bare.code = fault.code := by
  cases fault <;> rfl

theorem Lint.Alike.filter {faults faults' : List Diagnostic} (alike : Lint.Alike faults faults')
    (kind : Code → Bool) : Lint.Alike (faults.filter (kind ·.code)) (faults'.filter (kind ·.code)) := by
  have bare (faults : List Diagnostic) : (faults.filter (kind ·.code)).map (·.fault.bare) =
      (faults.map (·.fault.bare)).filter (kind ·.code) := by
    rw [List.filter_map]
    congr 2
    funext d
    exact congrArg kind (Fault.code_bare d.fault).symm
  rw [Lint.Alike, bare, bare]
  exact List.Perm.filter _ alike

/-- Programs with the same faults are both rejected or both accepted. -/
theorem checked_alike {p p' : Program} (alike : Lint.Alike (Lint.lint p) (Lint.lint p')) :
    (∃ errors errors', checked p = .error errors ∧ checked p' = .error errors' ∧ Lint.Alike errors errors') ∨
      ∃ warnings warnings', checked p = .ok (p, warnings) ∧ checked p' = .ok (p', warnings') ∧
        Lint.Alike warnings warnings' := by
  have errors := alike.filter Code.isError
  have warnings := alike.filter (!·.isError)
  have split (p : Program) : checked p =
      if ((Lint.lint p).filter (·.code.isError)).isEmpty then .ok (p, (Lint.lint p).filter (!·.code.isError))
      else .error ((Lint.lint p).filter (·.code.isError)) := by
    rw [checked, List.partition_eq_filter_filter]
    rfl
  have empty : ((Lint.lint p').filter (·.code.isError)).isEmpty = ((Lint.lint p).filter (·.code.isError)).isEmpty := by
    have length := errors.length_eq
    rw [List.length_map, List.length_map] at length
    rw [Bool.eq_iff_iff, List.isEmpty_iff_length_eq_zero, List.isEmpty_iff_length_eq_zero, length]
  rw [split p, split p', empty]
  split
  · exact .inr ⟨_, _, rfl, rfl, warnings⟩
  · exact .inl ⟨_, _, rfl, rfl, errors⟩

end Sketch
