import Mathlib.Data.List.Basic
import Sketch.Proofs.Syntax.Phrases

/-!
A program whose tokens moved within their lines. Checks find the same faults in the same order, at the new places.
-/

namespace Sketch

/-! ### Reading -/

section Reading

open Sketch.Parser (Round)

variable {s : TokenStream} {m : Shift} {hadMistake : Bool} {i : Nat}

/-- The rounds of the top level move with their tokens. -/
theorem rounds_relocate (fuel : List Token) (inside : i ≤ s.tokens.length) :
    Parser.rounds (fuel.map (Token.relocate m.move)) hadMistake ((s.relocate m.move).cursor i) =
      Prod.map (List.map (Item.relocate m.move)) (List.map (Diagnostic.relocate m.move))
        (Parser.rounds fuel hadMistake (s.cursor i)) := by
  induction fuel generalizing hadMistake i with
  | nil => rfl
  | cons _ fuel ih =>
    have length := TokenStream.relocate_length (f := m.move) (s := s)
    rcases Nat.lt_or_eq_of_le inside with within | rfl
    · obtain ⟨r, j, inside', -, did, did', -⟩ := round_comes m hadMistake within
      rw [List.map_cons, IndexParser.rounds_cons within inside' did,
        IndexParser.rounds_cons (length ▸ within) (length ▸ inside') did']
      cases r <;> (rw [ih (IndexParser.nextStart_le within inside')]; rfl)
    · rw [List.map_cons, Parser.rounds, Parser.rounds, TokenStream.cursor, TokenStream.cursor, List.drop_length,
        ← length, List.drop_length]
      rfl

/-- The program of relocated tokens is the program, relocated. -/
theorem parse_relocate (m : Shift) (s : TokenStream) : Parser.parse (s.relocate m.move) =
    ((Parser.parse s).map (Program.relocate m.move)).mapError (List.map (Diagnostic.relocate m.move)) := by
  have rounds : Parser.rounds (s.relocate m.move).tokens false (.ofStream (s.relocate m.move)) = _ :=
    rounds_relocate s.tokens (Nat.zero_le _)
  rw [Parser.parse, Parser.parse, rounds, TokenStream.cursor_zero]
  obtain ⟨items, mistakes⟩ := Parser.rounds s.tokens false (.ofStream s)
  simp only [Prod.map_apply, List.isEmpty_map]
  split <;> rfl

end Reading

/-! ### Checks -/

variable {f : Pos → Pos}

namespace Lint

variable {known : String → Bool}

theorem writeFaults_relocate (name : String) (pos : Pos) :
    writeFaults name (f pos) = (writeFaults name pos).map (Diagnostic.relocate f) := by
  rw [writeFaults, writeFaults]
  split <;> rfl

theorem exprsFaults_eq_flatMap (items : List Expr) : exprsFaults known items = items.flatMap (exprFaults known) := by
  induction items with
  | nil => rfl
  | cons e rest ih => rw [exprsFaults, ih, List.flatMap_cons]

theorem entriesFaults_eq_flatMap (entries : List (String × Expr)) :
    entriesFaults known entries = entries.flatMap fun entry => exprFaults known entry.2 := by
  induction entries with
  | nil => rfl
  | cons entry rest ih => rw [entriesFaults, ih, List.flatMap_cons]

theorem blockFaults_eq_flatMap (body : List Stmt) : blockFaults known body = body.flatMap (stmtFaults known) := by
  induction body with
  | nil => rfl
  | cons s rest ih => rw [blockFaults, ih, List.flatMap_cons]

theorem branchesFaults_eq_flatMap (branches : List (Expr × List Stmt)) :
    branchesFaults known branches =
      branches.flatMap fun branch => exprFaults known branch.1 ++ blockFaults known branch.2 := by
  induction branches with
  | nil => rfl
  | cons branch rest ih => rw [branchesFaults, ih, List.flatMap_cons]

theorem stmtFaults_branch (branches : List (Expr × List Stmt)) (otherwise : Option (List Stmt)) (pos : Pos) :
    stmtFaults known (.branch branches otherwise pos) =
      branchesFaults known branches ++ otherwise.elim [] (blockFaults known) := by
  cases otherwise <;> rw [stmtFaults] <;> rfl

theorem stmtFaults_clauses (init : Option Stmt) (test : Option Expr) (step : Option Stmt) (body : List Stmt)
    (pos : Pos) :
    stmtFaults known (.clauses init test step body pos) =
      init.elim [] (stmtFaults known) ++ optionFaults known test ++ step.elim [] (stmtFaults known) ++
        blockFaults known body := by
  cases init <;> cases step <;> rw [stmtFaults] <;> rfl

/-- The faults of parts are relocated if those of each part are. -/
theorem flatMap_relocate {α : Type} {move : α → α} {faults : α → List Diagnostic} {parts : List α}
    (each : ∀ part ∈ parts, faults (move part) = (faults part).map (Diagnostic.relocate f)) :
    (parts.map move).flatMap faults = (parts.flatMap faults).map (Diagnostic.relocate f) := by
  rw [List.flatMap_map, List.map_flatMap]
  exact List.flatMap_congr each

/-- The faults of an expression move with it. -/
theorem exprFaults_relocate (e : Expr) :
    exprFaults known (e.relocate f) = (exprFaults known e).map (Diagnostic.relocate f) := by
  induction e using Expr.inductionOn with
  | num | bool | str | nil | ident => rfl
  | bin op left right pos leftEq rightEq =>
    rw [Expr.relocate, exprFaults, exprFaults, leftEq, rightEq, List.map_append]
  | un op operand pos operandEq => exact operandEq
  | call callee args pos argsEq =>
    rw [Expr.relocate, exprFaults, exprFaults, List.map_append, Expr.relocateEach_eq_map,
      exprsFaults_eq_flatMap, exprsFaults_eq_flatMap, flatMap_relocate argsEq]
    split <;> rfl
  | method object name args pos objectEq argsEq =>
    rw [Expr.relocate, exprFaults, exprFaults, List.map_append, objectEq, Expr.relocateEach_eq_map,
      exprsFaults_eq_flatMap, exprsFaults_eq_flatMap, flatMap_relocate argsEq]
  | field object name pos objectEq => exact objectEq
  | index object key pos objectEq keyEq =>
    rw [Expr.relocate, exprFaults, exprFaults, objectEq, keyEq, List.map_append]
  | list items pos itemsEq =>
    rw [Expr.relocate, exprFaults, exprFaults, Expr.relocateEach_eq_map, exprsFaults_eq_flatMap,
      exprsFaults_eq_flatMap, flatMap_relocate itemsEq]
  | map entries pos entriesEq =>
    rw [Expr.relocate, exprFaults, exprFaults, Expr.relocateEntries_eq_map, entriesFaults_eq_flatMap,
      entriesFaults_eq_flatMap]
    exact flatMap_relocate entriesEq

theorem optionFaults_relocate (e : Option Expr) :
    optionFaults known (e.map (Expr.relocate f)) = (optionFaults known e).map (Diagnostic.relocate f) := by
  cases e with
  | none => rfl
  | some e => exact exprFaults_relocate e

theorem targetFaults_relocate (target : Target) (pos : Pos) :
    targetFaults known (f pos) (target.relocate f) =
      (targetFaults known pos target).map (Diagnostic.relocate f) := by
  cases target with
  | name n => exact writeFaults_relocate n pos
  | index object key =>
    rw [Target.relocate, targetFaults, targetFaults, exprFaults_relocate, exprFaults_relocate,
      List.map_append]
  | field object n => exact exprFaults_relocate object

/-- The faults of a statement move with it. -/
theorem stmtFaults_relocate (s : Stmt) :
    stmtFaults known (s.relocate f) = (stmtFaults known s).map (Diagnostic.relocate f) := by
  have block {body : List Stmt}
      (each : ∀ s ∈ body, stmtFaults known (s.relocate f) = (stmtFaults known s).map (Diagnostic.relocate f)) :
      blockFaults known (body.map (Stmt.relocate f)) =
        (blockFaults known body).map (Diagnostic.relocate f) := by
    rw [blockFaults_eq_flatMap, blockFaults_eq_flatMap, flatMap_relocate each]
  induction s using Stmt.inductionOn with
  | declare name init pos =>
    rw [Stmt.relocate, stmtFaults, stmtFaults, writeFaults_relocate, optionFaults_relocate, List.map_append]
  | assign target op value pos =>
    rw [Stmt.relocate, stmtFaults, stmtFaults, targetFaults_relocate, exprFaults_relocate, List.map_append]
  | branch branches otherwise pos branchesEq otherwiseEq =>
    rw [Stmt.relocate, stmtFaults_branch, stmtFaults_branch, List.map_append, Stmt.relocateBranches_eq_map,
      branchesFaults_eq_flatMap, branchesFaults_eq_flatMap, Stmt.relocateOtherwise_eq_map]
    congr 1
    · apply flatMap_relocate
      intro branch member
      rw [relocateBranch, exprFaults_relocate, block (branchesEq branch member), List.map_append]
    · cases otherwise with
      | none => rfl
      | some body => exact block (otherwiseEq body rfl)
  | count var start stop step body pos bodyEq =>
    rw [Stmt.relocate, stmtFaults, stmtFaults, Stmt.relocateBlock_eq_map, writeFaults_relocate,
      exprFaults_relocate, exprFaults_relocate, optionFaults_relocate, block bodyEq]
    simp only [List.map_append]
  | clauses init test step body pos initEq stepEq bodyEq =>
    have clause {s : Option Stmt} (eq : ∀ t ∈ s, stmtFaults known (t.relocate f) =
        (stmtFaults known t).map (Diagnostic.relocate f)) :
        (s.map (Stmt.relocate f)).elim [] (stmtFaults known) =
          (s.elim [] (stmtFaults known)).map (Diagnostic.relocate f) := by
      cases s with
      | none => rfl
      | some s => exact eq s rfl
    rw [Stmt.relocate, stmtFaults_clauses, stmtFaults_clauses, Stmt.relocateBlock_eq_map, block bodyEq,
      optionFaults_relocate, Stmt.relocateClause_eq_map, Stmt.relocateClause_eq_map, clause initEq,
      clause stepEq]
    simp only [List.map_append]
  | whileDo test body pos bodyEq =>
    rw [Stmt.relocate, stmtFaults, stmtFaults, Stmt.relocateBlock_eq_map, exprFaults_relocate, block bodyEq,
      List.map_append]
  | ret value pos => exact optionFaults_relocate value
  | eval value => exact exprFaults_relocate value

theorem itemFaults_relocate (i : Item) :
    itemFaults known (i.relocate f) = (itemFaults known i).map (Diagnostic.relocate f) := by
  cases i with
  | function d =>
    change blockFaults known (d.body.map (Stmt.relocate f)) = _
    rw [itemFaults, blockFaults_eq_flatMap, blockFaults_eq_flatMap]
    exact flatMap_relocate fun s _ => stmtFaults_relocate s
  | stmt s => exact stmtFaults_relocate s

end Lint

theorem Program.topLevel_relocate (p : Program) : (p.relocate f).topLevel = p.topLevel.map (Stmt.relocate f) := by
  rw [topLevel, topLevel, relocate, List.filterMap_map, List.map_filterMap]
  apply List.filterMap_congr
  intro i _
  cases i <;> rfl

theorem Program.relocate_functions (p : Program) : (p.relocate f).functions = p.functions.map (FnDef.relocate f) := by
  rw [functions, functions, relocate, List.filterMap_map, List.map_filterMap]
  apply List.filterMap_congr
  intro i _
  cases i <;> rfl

theorem Program.relocate_function? (p : Program) (name : String) :
    (p.relocate f).function? name = (p.function? name).map (FnDef.relocate f) := by
  rw [function?, function?, relocate_functions, List.find?_map]
  rfl

namespace Lint

theorem isKnown_relocate (p : Program) : isKnown (p.relocate f) = isKnown p := by
  funext name
  rw [isKnown, isKnown, Program.relocate_function?, Option.isSome_map]

theorem frameFaults_relocate (p : Program) :
    frameFaults (p.relocate f) = (frameFaults p).map (Diagnostic.relocate f) := by
  rw [frameFaults, frameFaults, Program.relocate_function?, Program.relocate_function?]
  cases p.function? "loop" with
  | none => rfl
  | some loop => cases p.function? "draw" <;> rfl

variable (keeps : ∀ p, (f p).line = p.line)

include keeps

/-- A fault names the line of the first declaration, which stays. -/
theorem declarationFaults_relocate (before ds : List FnDef) :
    declarationFaults (before.map (FnDef.relocate f)) (ds.map (FnDef.relocate f)) =
      (declarationFaults before ds).map (Diagnostic.relocate f) := by
  induction ds generalizing before with
  | nil => rfl
  | cons d ds ih =>
    have rest := ih (before ++ [d])
    rw [List.map_append] at rest
    rw [List.map_cons, declarationFaults, declarationFaults, List.map_append, ← rest]
    congr 1
    have found : (before.map (FnDef.relocate f)).find? (·.name = (d.relocate f).name) =
        (before.find? (·.name = d.name)).map (FnDef.relocate f) := List.find?_map
    rw [found]
    cases before.find? (·.name = d.name) with
    | some first =>
      have line : (first.relocate f).pos.line = first.pos.line := keeps first.pos
      simp only [Option.map_some, line]
      rfl
    | none =>
      have params : ((d.relocate f).params ≠ []) = (d.params ≠ []) := by
        rw [FnDef.relocate, ne_eq, List.map_eq_nil_iff]
      simp only [Option.map_none, params]
      rw [apply_ite (List.map (Diagnostic.relocate f))]
      rfl

theorem lint_relocate (p : Program) : lint (p.relocate f) = (lint p).map (Diagnostic.relocate f) := by
  have declarations : declarationFaults [] (p.functions.map (FnDef.relocate f)) = _ :=
    declarationFaults_relocate keeps [] p.functions
  rw [lint, lint, Program.relocate_functions, declarations, frameFaults_relocate, isKnown_relocate,
    Program.relocate, flatMap_relocate fun i _ => itemFaults_relocate i, List.map_append, List.map_append]

end Lint

/-- What compiling gives, with every position in it sent through `f`. -/
def relocateCompiled (f : Pos → Pos) :
    Except (List Diagnostic) (Program × List Diagnostic) → Except (List Diagnostic) (Program × List Diagnostic)
  | .ok (program, warnings) => .ok (program.relocate f, warnings.map (Diagnostic.relocate f))
  | .error errors => .error (errors.map (Diagnostic.relocate f))

/-- The checks made of a program once it is read. -/
def checked (program : Program) : Except (List Diagnostic) (Program × List Diagnostic) :=
  let (errors, warnings) := (Lint.lint program).partition (·.isError)
  if errors.isEmpty then .ok (program, warnings) else .error errors

theorem compile_eq_checked {source : String} {s : TokenStream} (read : Lexer.tokenize source = .ok s) :
    compile source = Parser.parse s >>= checked := by
  rw [compile, readProgram, read]
  rfl

/-- What compiles was read without a mistake and has no errors. -/
theorem read_of_compile {source : String} {program : Program} {warnings : List Diagnostic}
    (accepted : compile source = .ok (program, warnings)) : ∃ s, Lexer.tokenize source = .ok s ∧
      Parser.parse s = .ok program ∧ ∀ d ∈ Lint.lint program, d.isError = false := by
  cases read : Lexer.tokenize source with
  | error faults =>
    rw [compile, readProgram, read] at accepted
    cases accepted
  | ok s =>
    rw [compile_eq_checked read] at accepted
    cases parsed : Parser.parse s with
    | error mistakes =>
      rw [parsed] at accepted
      cases accepted
    | ok p =>
      rw [parsed] at accepted
      have passed : checked p = .ok (program, warnings) := accepted
      rw [checked, List.partition_eq_filter_filter] at passed
      dsimp only at passed
      split at passed
      case isTrue clean =>
        cases passed
        rw [List.isEmpty_iff, List.filter_eq_nil_iff] at clean
        exact ⟨s, rfl, parsed, fun d mem => Bool.eq_false_iff.mpr (clean d mem)⟩
      case isFalse => cases passed

variable (keeps : ∀ p, (f p).line = p.line)

include keeps

theorem checked_relocate (p : Program) : checked (p.relocate f) = relocateCompiled f (checked p) := by
  have split (faults : List Diagnostic) : (faults.map (Diagnostic.relocate f)).partition (·.isError) =
      ((faults.partition (·.isError)).1.map (Diagnostic.relocate f),
        (faults.partition (·.isError)).2.map (Diagnostic.relocate f)) := by
    rw [List.partition_eq_filter_filter, List.partition_eq_filter_filter, List.filter_map, List.filter_map]
    rfl
  rw [checked, checked, Lint.lint_relocate keeps, split]
  simp only [List.isEmpty_map]
  split <;> rfl

/-- What compiling gives moves with the tokens. -/
theorem compile_relocate (s : TokenStream) :
    Parser.parse (s.relocate f) >>= checked = relocateCompiled f (Parser.parse s >>= checked) := by
  rw [parse_relocate ⟨f, keeps⟩]
  cases Parser.parse s with
  | error errors => rfl
  | ok program => exact checked_relocate keeps program

/-- Texts whose tokens differ in what `f` forgets of their positions compile to what differs so. -/
theorem compile_eq_of_tokens {source source' : String} {s s' : TokenStream}
    (read : Lexer.tokenize source = .ok s) (read' : Lexer.tokenize source' = .ok s')
    (same : s'.relocate f = s.relocate f) :
    relocateCompiled f (compile source') = relocateCompiled f (compile source) := by
  rw [compile_eq_checked read, compile_eq_checked read', ← compile_relocate keeps, ← compile_relocate keeps,
    same]

end Sketch
