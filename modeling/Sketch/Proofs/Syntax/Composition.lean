import Sketch.Proofs.Syntax.Nodes
import Sketch.Proofs.Syntax.Phrases

/-!
What statements are put together from. Whatever holds of all expressions that the parser accepts holds of the
expressions in all statements of an accepted program.
-/

namespace Sketch

namespace Stmt

/-- Only an expression or an assignment, and something holds of its expressions. -/
def Plain (P : Expr → Prop) : Stmt → Prop
  | .eval e => P e
  | .assign target _ value _ => (∃ e, Parser.target? e = some target ∧ P e) ∧ P value
  | _ => False

/-- Something holds of the expressions right in a statement. -/
def Own (P : Expr → Prop) : Stmt → Prop
  | .declare _ init _ => ∀ e ∈ init, P e
  | .branch branches _ _ => ∀ branch ∈ branches, P branch.1
  | .count _ start stop step _ _ => P start ∧ P stop ∧ ∀ e ∈ step, P e
  | .clauses _ test step _ _ => (∀ e ∈ test, P e) ∧ ∀ s ∈ step, s.Plain P
  | .whileDo test _ _ => P test
  | .ret value _ => ∀ e ∈ value, P e
  | .assign target op value pos => Plain P (.assign target op value pos)
  | .eval e => P e

/-- The statements in a statement that nest one level deeper. -/
def deeper : Stmt → List Stmt
  | .branch branches otherwise _ => branches.flatMap (·.2) ++ otherwise.getD []
  | .clauses init _ _ body _ => init.toList ++ body
  | .count _ _ _ _ body _ | .whileDo _ body _ => body
  | .declare .. | .assign .. | .ret .. | .eval _ => []

/-- A statement nests `levels` deep at most, and something holds of its expressions. -/
inductive Built (P : Nat → Expr → Prop) : Nat → Stmt → Prop where
  | of {levels : Nat} {s : Stmt} (own : s.Own (P levels)) (inner : ∀ t ∈ s.deeper, Built P levels t) :
      Built P (levels + 1) s

end Stmt

/-! ### Phrases and their parts -/

/-- Something holds of the expressions and statements of a phrase. -/
def Phrase.Holds (E : Nat → Expr → Prop) (Q R : Nat → Stmt → Prop) : Phrase → Prop
  | .token _ | .params _ => True
  | .expr levels e => E levels e
  | .simple levels t => Q levels t
  | .stmt levels t => R levels t
  | .block levels body | .braces levels body | .loop levels body => ∀ t ∈ body, R levels t
  | .chain _ levels rest => (∀ branch ∈ rest.1, E levels branch.1 ∧ ∀ t ∈ branch.2, R levels t) ∧
      ∀ t ∈ rest.2.getD [], R levels t
  | .item i => ∀ t ∈ i.body, R maxNesting t
  | .items is => ∀ i ∈ is, ∀ t ∈ i.body, R maxNesting t

/-- What holds of the parts of a statement holds of the statement. -/
structure Composes (E : Nat → Expr → Prop) (Q R : Nat → Stmt → Prop) : Prop where
  eval {levels : Nat} {e : Expr} (own : E levels e) : Q levels (.eval e)
  assign {levels : Nat} {e value : Expr} {kind : TokenKind} {op : Option BinOp} {target : Target} {pos : Pos}
    (assigns : Parser.assignOp? kind = some op) (named : Parser.target? e = some target) (left : E levels e)
    (right : E levels value) : Q levels (.assign target op value pos)
  plain {levels : Nat} {t : Stmt} (simple : Q levels t) : R (levels + 1) t
  declare {levels : Nat} {name : String} {init : Option Expr} {pos : Pos} (own : ∀ e ∈ init, E levels e) :
    R (levels + 1) (.declare name init pos)
  ret {levels : Nat} {value : Option Expr} {pos : Pos} (own : ∀ e ∈ value, E levels e) : R (levels + 1) (.ret value pos)
  whileDo {levels : Nat} {test : Expr} {body : List Stmt} {pos : Pos} (own : E levels test)
    (inner : ∀ t ∈ body, R levels t) : R (levels + 1) (.whileDo test body pos)
  count {levels : Nat} {var : String} {start stop : Expr} {step : Option Expr} {body : List Stmt} {pos : Pos}
    (first : E levels start) (last : E levels stop) (own : ∀ e ∈ step, E levels e) (inner : ∀ t ∈ body, R levels t) :
    R (levels + 1) (.count var start stop step body pos)
  clauses {levels : Nat} {init step : Option Stmt} {test : Option Expr} {body : List Stmt} {pos : Pos}
    (first : ∀ t ∈ init, R levels t) (own : ∀ e ∈ test, E levels e) (last : ∀ t ∈ step, Q levels t)
    (inner : ∀ t ∈ body, R levels t) : R (levels + 1) (.clauses init test step body pos)
  branch {levels : Nat} {branches : List (Expr × List Stmt)} {otherwise : Option (List Stmt)} {pos : Pos}
    (each : ∀ branch ∈ branches, E levels branch.1 ∧ ∀ t ∈ branch.2, R levels t)
    (inner : ∀ t ∈ otherwise.getD [], R levels t) : R (levels + 1) (.branch branches otherwise pos)

section Productions

variable {E : Nat → Expr → Prop} {Q R : Nat → Stmt → Prop} (composes : Composes E Q R)

include composes

/-- What holds of the parts of a production holds of the whole. -/
theorem Produces.holds {pos : Pos} {p : Phrase} {parts : List Phrase} (rule : Produces pos p parts)
    (each : ∀ q ∈ parts, q.Holds E Q R) : p.Holds E Q R := by
  cases rule with
  | @eval levels e => exact composes.eval (each (.expr levels e) (List.mem_singleton_self _))
  | @assign levels e value kind op target assigns named =>
    exact composes.assign assigns named (each (.expr levels e) (by simp)) (each (.expr levels value) (by simp))
  | @plain levels t => exact composes.plain (each (.simple levels t) (List.mem_singleton_self _))
  | @declare levels name init =>
    apply composes.declare
    rintro e rfl
    exact each (.expr levels e) (by simp)
  | @ret levels value =>
    apply composes.ret
    rintro e rfl
    exact each (.expr levels e) (by simp)
  | @whileDo levels test body =>
    exact composes.whileDo (each (.expr levels test) (by simp)) (each (.loop levels body) (by simp))
  | @count levels var start stop step body =>
    apply composes.count (each (.expr levels start) (by simp)) (each (.expr levels stop) (by simp)) _
      (each (.loop levels body) (by simp))
    rintro e rfl
    exact each (.expr levels e) (by simp)
  | @clauses levels init step test body =>
    apply composes.clauses _ _ _ (each (.loop levels body) (by simp))
    · rintro t rfl
      exact each (.stmt levels t) (by simp)
    · rintro e rfl
      exact each (.expr levels e) (by simp)
    · rintro t rfl
      exact each (.simple levels t) (by simp)
  | @bracedBranch levels test body rest =>
    have others := each (.chain true levels rest) (by simp)
    have first := And.intro (each (.expr levels test) (by simp)) (each (.braces levels body) (by simp))
    exact composes.branch (List.forall_mem_cons.mpr ⟨first, others.1⟩) others.2
  | @keywordBranch levels test body rest =>
    have others := each (.chain false levels rest) (by simp)
    have first := And.intro (each (.expr levels test) (by simp)) (each (.block levels body) (by simp))
    exact composes.branch (List.forall_mem_cons.mpr ⟨first, others.1⟩) others.2
  | @bracedLoop levels body => exact each (.braces levels body) (by simp)
  | @keywordLoop levels body | @braces levels body | @blockSeparator levels body =>
    exact each (.block levels body) (by simp)
  | blockEnd | itemsEnd => exact List.forall_mem_nil _
  | @blockCons levels t body =>
    exact List.forall_mem_cons.mpr ⟨each (.stmt levels t) (by simp), each (.block levels body) (by simp)⟩
  | bracedEnd | keywordEnd => exact ⟨List.forall_mem_nil _, List.forall_mem_nil _⟩
  | @bracedElse levels body => exact ⟨List.forall_mem_nil _, each (.braces levels body) (by simp)⟩
  | @keywordElse levels body => exact ⟨List.forall_mem_nil _, each (.block levels body) (by simp)⟩
  | @bracedElseif levels test body rest =>
    have others := each (.chain true levels rest) (by simp)
    have first := And.intro (each (.expr levels test) (by simp)) (each (.braces levels body) (by simp))
    exact ⟨List.forall_mem_cons.mpr ⟨first, others.1⟩, others.2⟩
  | @keywordElseif levels test body rest =>
    have others := each (.chain false levels rest) (by simp)
    have first := And.intro (each (.expr levels test) (by simp)) (each (.block levels body) (by simp))
    exact ⟨List.forall_mem_cons.mpr ⟨first, others.1⟩, others.2⟩
  | paramsEnd | param | paramsCons => trivial
  | @bracedFunction name params body => exact each (.braces maxNesting body) (by simp)
  | @keywordFunction name params body => exact each (.block maxNesting body) (by simp)
  | @top t => exact List.forall_mem_singleton.mpr (each (.stmt maxNesting t) (List.mem_singleton_self _))
  | @itemsSeparator items => exact each (.items items) (by simp)
  | @itemsCons item items =>
    exact List.forall_mem_cons.mpr ⟨each (.item item) (by simp), each (.items items) (by simp)⟩

variable {s : TokenStream} (exprs : ∀ levels i, Takes s (Parser.expression levels) i fun e _ => E levels e)

include exprs

theorem Yields.holds {phrases : List Phrase} {i j : Nat} (yields : Yields s phrases i j) :
    ∀ p ∈ phrases, p.Holds E Q R := by
  induction yields with
  | nil => exact List.forall_mem_nil _
  | token found rest fromRest => exact List.forall_mem_cons.mpr ⟨trivial, fromRest⟩
  | @expr levels e phrases i j k read derives rest fromRest =>
    obtain ⟨-, -, own⟩ := exprs levels i e _ read
    exact List.forall_mem_cons.mpr ⟨own, fromRest⟩
  | phrase rule inner rest fromInner fromRest =>
    exact List.forall_mem_cons.mpr ⟨rule.holds composes fromInner, fromRest⟩

theorem parse_holds {p : Program} (accepted : Parser.parse s = .ok p) :
    ∀ item ∈ p.items, ∀ t ∈ item.body, R maxNesting t :=
  (parse_yields accepted).holds composes exprs (.items p.items) (List.mem_singleton_self _)

end Productions

/-! ### What a program is built from -/

/-- Statements are built from their expressions. -/
theorem Stmt.composes_built (P : Nat → Expr → Prop) :
    Composes P (fun levels t => t.Plain (P levels)) (fun levels t => t.Built P levels) where
  eval own := own
  assign _ named left right := ⟨⟨_, named, left⟩, right⟩
  plain {_ t} simple := by
    cases t with
    | eval | assign => exact .of simple (List.forall_mem_nil _)
    | declare | branch | count | clauses | whileDo | ret => exact simple.elim
  declare own := .of own (List.forall_mem_nil _)
  ret own := .of own (List.forall_mem_nil _)
  whileDo own inner := .of own inner
  count first last own inner := .of ⟨first, last, own⟩ inner
  clauses first own last inner := by
    refine .of ⟨own, last⟩ ?_
    exact List.forall_mem_append.mpr ⟨fun t mem => first t (Option.mem_toList.mp mem), inner⟩
  branch each inner := by
    refine .of (fun branch mem => (each branch mem).1) (List.forall_mem_append.mpr ⟨?_, inner⟩)
    intro t mem
    obtain ⟨branch, here, inBody⟩ := List.mem_flatMap.mp mem
    exact (each branch here).2 t inBody

/-- An accepted program is put together from expressions that the parser accepts. -/
theorem parse_built {s : TokenStream} {P : Nat → Expr → Prop}
    (exprs : ∀ levels i, Takes s (Parser.expression levels) i fun e _ => P levels e) {p : Program}
    (accepted : Parser.parse s = .ok p) : ∀ item ∈ p.items, ∀ t ∈ item.body, t.Built P maxNesting :=
  parse_holds (Stmt.composes_built P) exprs accepted

end Sketch
