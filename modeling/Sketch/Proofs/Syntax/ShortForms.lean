import Sketch.Proofs.Syntax.Composition
import Sketch.Proofs.Syntax.Expansion

/-!
Short forms. The expansion of a program that was read from a text has no short form left.
-/

namespace Sketch

namespace Stmt

/-- The statements right inside a statement. -/
def parts : Stmt → List Stmt
  | .branch branches otherwise _ => branches.flatMap (·.2) ++ otherwise.getD []
  | .clauses init _ step body _ => init.toList ++ step.toList ++ body
  | .count _ _ _ _ body _ | .whileDo _ body _ => body
  | .declare .. | .assign .. | .ret .. | .eval _ => []

/-- A property of a statement and of all the statements in it. -/
inductive Every (P : Stmt → Prop) : Stmt → Prop
  | of {s : Stmt} (own : P s) (inner : ∀ t ∈ s.parts, Every P t) : Every P s

theorem Every.alone {P : Stmt → Prop} {s : Stmt} (own : P s) (none : s.parts = []) : s.Every P := by
  refine .of own ?_
  rw [none]
  exact List.forall_mem_nil _

/-- Whether a statement is a short form of others. -/
def isShort : Stmt → Bool
  | .declare _ init _ => init.isSome
  | .assign (.name _) op _ _ => op.isSome
  | .branch branches _ _ => 1 < branches.length
  | .clauses init _ _ _ _ => init.all isPlain
  | _ => false

/-- Whether a statement has a shape that the grammar admits. -/
def isRegular : Stmt → Bool
  | .assign _ op _ _ => op.all (!·.isConnective)
  | .clauses _ _ step _ _ => step.all isPlain
  | _ => true

abbrev Regular : Stmt → Prop := Every (·.isRegular = true)

/-- No short form is left in a statement. -/
abbrev Long : Stmt → Prop := Every (·.isShort = false)

end Stmt

def Program.Regular (p : Program) : Prop := ∀ i ∈ p.items, ∀ s ∈ i.body, s.Regular

def Program.Long (p : Program) : Prop := ∀ i ∈ p.items, ∀ s ∈ i.body, s.Long

/-! ### Expansions -/

namespace Stmt

variable {s : Stmt}

theorem long_plain (plain : s.isPlain = true) (regular : s.isRegular = true) : s.plain.Long := by
  cases s with
  | declare name init pos => cases init <;> exact .alone rfl rfl
  | eval e => exact .alone rfl rfl
  | assign target op value pos =>
    cases target with
    | index | field => exact .alone rfl rfl
    | name name =>
      cases op with
      | none => exact .alone rfl rfl
      | some op =>
        have other : op.isConnective = false := by simpa [isRegular] using regular
        rw [Stmt.plain, other]
        exact .alone rfl rfl
  | branch | count | clauses | whileDo | ret => cases plain

theorem long_nest {branches : List (Expr × List Stmt)} {otherwise : Option (List Stmt)} (pos : Pos)
    (ofBranches : ∀ branch ∈ branches, ∀ s ∈ branch.2, s.Long) (ofOtherwise : ∀ s ∈ otherwise.getD [], s.Long) :
    (nest branches otherwise pos).Long := by
  induction branches with
  | nil => exact .of rfl ofOtherwise
  | cons first rest ih =>
    have inner := ih fun branch mem => ofBranches branch (List.mem_cons_of_mem first mem)
    refine .of rfl ?_
    intro s mem
    rw [nest, parts, List.flatMap_singleton, List.mem_append] at mem
    rcases mem with mem | mem
    · exact ofBranches first List.mem_cons_self s mem
    · split at mem
      · exact ofOtherwise s mem
      · rw [Option.getD_some, List.mem_singleton] at mem
        rw [mem]
        exact inner

theorem long_fuse {lead : List Stmt} {main : Stmt} (pos : Pos) (each : ∀ s ∈ lead ++ [main], s.Long) :
    (fuse lead main pos).Long := by
  rw [fuse]
  split
  · exact each main (List.mem_append_right lead List.mem_cons_self)
  · refine .of rfl ?_
    intro s mem
    rw [parts, List.flatMap_singleton, Option.getD_none, List.append_nil] at mem
    exact each s mem

/-- Only a plain statement has a plain expansion. -/
theorem isPlain_expandOne (special : s.isPlain = false) : s.expandOne.isPlain = false := by
  have single {main : Stmt} (lead : List Stmt) (pos : Pos) (other : main.isPlain = false) :
      (fuse lead main pos).isPlain = false := by
    rw [fuse]
    split
    · exact other
    · rfl
  apply single
  cases s with
  | declare | assign | eval => cases special
  | branch branches otherwise pos =>
    rw [main]
    cases expandBranches branches <;> rfl
  | clauses init test step body pos =>
    rw [main]
    split <;> rfl
  | count | whileDo | ret => rfl

theorem isPlain_of_mem {clause : Option Stmt} (plain : clause.all isPlain = true)
    (mem : s ∈ clause.toList) : s.isPlain = true := by
  obtain rfl := Option.mem_toList.mp mem
  exact plain

section Clauses

variable {init : Option Stmt} {test : Option Expr} {step : Option Stmt} {body : List Stmt} {pos : Pos}
  (ofBody : ∀ t ∈ body.flatMap Stmt.expand, t.Long)

include ofBody

/-- A loop that becomes one with a test. -/
theorem long_whileDo (ofInit : init.all isPlain = true) (ofStep : step.all isPlain = true)
    (regular : ∀ s ∈ init.toList ++ step.toList, s.isRegular = true) :
    ∀ t ∈ (Stmt.clauses init test step body pos).expand, t.Long := by
  rw [Stmt.expand, lead_clauses, main, expandBlock_eq_flatMap, ofInit, ofStep]
  intro t mem
  rcases List.mem_append.mp mem with mem | mem
  · obtain ⟨s, here, rfl⟩ := List.mem_map.mp mem
    exact long_plain (isPlain_of_mem ofInit here) (regular s (List.mem_append_left _ here))
  · rw [List.mem_singleton.mp mem]
    refine .of rfl ?_
    intro t mem
    rcases List.mem_append.mp mem with mem | mem
    · exact ofBody t mem
    · obtain ⟨s, here, rfl⟩ := List.mem_map.mp mem
      exact long_plain (isPlain_of_mem ofStep here) (regular s (List.mem_append_right _ here))

/-- A loop that keeps its clauses, since it begins with something special. -/
theorem long_clauses (special : init.all isPlain = false)
    (long : ∀ s ∈ init.toList ++ step.toList, s.expandOne.Long) :
    ∀ t ∈ (Stmt.clauses init test step body pos).expand, t.Long := by
  rw [Stmt.expand, lead_clauses, main, expandBlock_eq_flatMap, expandClause_eq_map, expandClause_eq_map, special]
  intro t mem
  rw [List.mem_singleton.mp mem]
  refine .of ?_ ?_
  · cases init with
    | none => cases special
    | some init => exact isPlain_expandOne special
  · intro t mem
    rcases List.mem_append.mp mem with mem | mem
    · rw [Option.toList_map, Option.toList_map, ← List.map_append] at mem
      obtain ⟨s, here, rfl⟩ := List.mem_map.mp mem
      exact long s here
    · exact ofBody t mem

end Clauses

/-- The expansion of a regular statement has no short form left. -/
theorem Regular.expand (regular : s.Regular) : ∀ t ∈ s.expand, t.Long := by
  induction regular with
  | @of s own inner longParts =>
    have block {body : List Stmt} (within : ∀ t ∈ body, t ∈ s.parts) : ∀ t ∈ body.flatMap Stmt.expand, t.Long := by
      intro t mem
      obtain ⟨part, here, mem⟩ := List.mem_flatMap.mp mem
      exact longParts part (within part here) t mem
    have alone (none : s.lead = []) (long : s.main.Long) : ∀ t ∈ s.expand, t.Long := by
      intro t mem
      rw [Stmt.expand, none, List.nil_append, List.mem_singleton] at mem
      rw [mem]
      exact long
    cases s with
    | declare name init pos => exact alone rfl (long_plain (s := .declare name init pos) rfl own)
    | assign target op value pos => exact alone rfl (long_plain (s := .assign target op value pos) rfl own)
    | ret | eval => exact alone rfl (.alone rfl rfl)
    | count | whileDo =>
      refine alone rfl (.of rfl ?_)
      rw [main, parts, expandBlock_eq_flatMap]
      exact block fun _ mem => mem
    | branch branches otherwise pos =>
      refine alone rfl ?_
      rw [main, expandBranches_eq_map, expandOtherwise_eq_map]
      apply long_nest
      · intro branch mem
        obtain ⟨source, here, rfl⟩ := List.mem_map.mp mem
        apply block
        intro t mem
        exact List.mem_append_left _ (List.mem_flatMap.mpr ⟨source, here, mem⟩)
      · cases otherwise with
        | none => exact List.forall_mem_nil _
        | some body => exact block fun t mem => List.mem_append_right _ mem
    | clauses init test step body pos =>
      have ofBody : ∀ t ∈ body.flatMap Stmt.expand, t.Long := block fun t mem => List.mem_append_right _ mem
      cases ofInit : init.all isPlain with
      | true =>
        apply long_whileDo ofBody ofInit own
        intro s mem
        obtain ⟨regular⟩ := inner s (List.mem_append_left body mem)
        exact regular
      | false =>
        apply long_clauses ofBody ofInit
        intro s mem
        exact long_fuse _ (longParts s (List.mem_append_left body mem))

end Stmt

variable {p : Program}

theorem Program.Regular.expand (regular : p.Regular) : p.expand.Long := by
  intro i mem s within
  obtain ⟨source, here, mem⟩ := List.mem_flatMap.mp mem
  cases source with
  | function f =>
    rw [List.mem_singleton.mp mem] at within
    obtain ⟨part, inside, within⟩ := List.mem_flatMap.mp within
    exact (regular _ here part inside).expand s within
  | stmt part =>
    obtain ⟨t, expanded, rfl⟩ := List.mem_map.mp mem
    rw [List.mem_singleton.mp within]
    exact (regular _ here part List.mem_cons_self).expand t expanded

/-! ### Places -/

section Places

variable (f : Pos → Pos)

namespace Stmt

theorem parts_relocate (s : Stmt) : (s.relocate f).parts = s.parts.map (Stmt.relocate f) := by
  cases s with
  | declare | assign | ret | eval => rfl
  | count | whileDo => rw [relocate, parts, relocateBlock_eq_map, parts]
  | branch branches otherwise pos =>
    rw [relocate, parts, parts, relocateBranches_eq_map, relocateOtherwise_eq_map, List.flatMap_map, List.map_append,
      List.map_flatMap]
    cases otherwise <;> rfl
  | clauses init test step body pos =>
    rw [relocate, parts, parts, relocateClause_eq_map, relocateClause_eq_map, relocateBlock_eq_map, List.map_append,
      List.map_append, Option.toList_map, Option.toList_map]

theorem isShort_relocate (s : Stmt) : (s.relocate f).isShort = s.isShort := by
  cases s with
  | declare name init pos => cases init <;> rfl
  | assign target op value pos => cases target <;> rfl
  | branch branches otherwise pos => rw [relocate, isShort, isShort, relocateBranches_eq_map, List.length_map]
  | clauses init test step body pos => rw [relocate, isShort, isShort, relocateClause_eq_map, all_isPlain_relocate]
  | count | whileDo | ret | eval => rfl

variable {s : Stmt}

theorem Long.relocate (long : s.Long) : (s.relocate f).Long := by
  induction long with
  | @of s own _ ih =>
    refine .of ((isShort_relocate f s).trans own) ?_
    rw [parts_relocate]
    intro t mem
    obtain ⟨t, here, rfl⟩ := List.mem_map.mp mem
    exact ih t here

theorem Long.of_relocate (long : (s.relocate f).Long) : s.Long := by
  generalize moved : s.relocate f = s' at long
  induction long generalizing s with
  | of own _ ih =>
    subst moved
    refine .of ((isShort_relocate f s).symm.trans own) ?_
    intro t mem
    apply ih (t.relocate f) _ rfl
    rw [parts_relocate]
    exact List.mem_map_of_mem mem

end Stmt

theorem Item.body_relocate (i : Item) : (i.relocate f).body = i.body.map (Stmt.relocate f) := by
  cases i <;> rfl

theorem Program.long_relocate (p : Program) : (p.relocate f).Long ↔ p.Long := by
  constructor
  · intro long i mem s within
    have moved : s.relocate f ∈ (i.relocate f).body := by
      rw [Item.body_relocate]
      exact List.mem_map_of_mem within
    exact (long _ (List.mem_map_of_mem mem) _ moved).of_relocate f
  · intro long i mem s within
    obtain ⟨i, here, rfl⟩ := List.mem_map.mp mem
    rw [Item.body_relocate] at within
    obtain ⟨s, inside, rfl⟩ := List.mem_map.mp within
    exact (long i here s inside).relocate f

end Places

theorem Program.ExpandsTo.long {p' : Program} (expands : p.ExpandsTo p') (regular : p.Regular) : p'.Long := by
  rw [← Program.long_relocate fun _ => .nowhere, expands, Program.long_relocate]
  exact regular.expand

/-! ### Programs that were read -/

/-- No symbol of an assignment stands for a connective. -/
theorem assignOp?_regular {kind : TokenKind} {op : Option BinOp} (found : Parser.assignOp? kind = some op) :
    op.all (!·.isConnective) = true := by
  unfold Parser.assignOp? at found
  split at found <;> cases found <;> rfl

theorem Stmt.composes_regular :
    Composes (fun _ _ => True) (fun _ t => t.Regular ∧ t.isPlain = true) (fun _ => Stmt.Regular) where
  eval _ := ⟨.alone rfl rfl, rfl⟩
  assign assigns _ _ _ := ⟨.alone (assignOp?_regular assigns) rfl, rfl⟩
  plain simple := simple.1
  declare _ := .alone rfl rfl
  ret _ := .alone rfl rfl
  whileDo _ inner := .of rfl inner
  count _ _ _ inner := .of rfl inner
  clauses {_ init step _ body _} first _ last inner := by
    refine .of ?_ ?_
    · cases step with
      | none => rfl
      | some step => exact (last step rfl).2
    · simp only [parts, List.forall_mem_append, Option.mem_toList]
      exact ⟨⟨first, fun t mem => (last t mem).1⟩, inner⟩
  branch each inner := by
    refine .of rfl (List.forall_mem_append.mpr ⟨?_, inner⟩)
    intro t mem
    obtain ⟨branch, here, inBody⟩ := List.mem_flatMap.mp mem
    exact (each branch here).2 t inBody

/-- A program that was read is regular. -/
theorem Parser.regular_of_read {source : String} (read : readProgram source = .ok p) : p.Regular := by
  rw [readProgram] at read
  cases tokens : Lexer.tokenize source with
  | error errors =>
    rw [tokens] at read
    cases read
  | ok stream =>
    rw [tokens] at read
    have any (levels i : Nat) : Takes stream (expression levels) i fun _ _ => True :=
      (expression_takes levels i).mono fun _ _ _ => trivial
    exact parse_holds Stmt.composes_regular any read

end Sketch
