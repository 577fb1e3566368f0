import Sketch.Proofs.Syntax.RelocatedCompile
import Sketch.Proofs.Token.Pieces

/-!
Places in a program that was read. Each is the place of a token. The end of the text is the place of some mistakes,
but nothing in a program stands there.
-/

namespace Sketch

variable {f : Pos → Pos}

/-! ### Expressions -/

section Expressions

variable {s : TokenStream} {rule : Bracket → Nat → Prop} {levels tier i j : Nat} {e : Expr}

theorem pos_fixed {e : Expr} (ofE : e.relocate f = e) : f e.pos = e.pos := by
  rw [← Expr.relocate_pos f e, ofE]

variable (fixed : ∀ t ∈ s.tokens, f t.pos = t.pos)

include fixed

theorem place_fixed (within : i < s.tokens.length) : f (s.cursor i).pos = (s.cursor i).pos := by
  rw [TokenStream.cursor_pos, List.getElem?_eq_getElem within]
  exact fixed _ (List.getElem_mem within)

/-- An expression stands on its tokens. -/
theorem Derives.relocate_eq (derives : Derives s rule levels tier e i j) : e.relocate f = e := by
  have place {i : Nat} {kind : TokenKind} (found : (s.cursor i).kind = some kind) :=
    place_fixed fixed (TokenStream.lt_of_cursor_kind found)
  induction derives with
  | @atom levels i kind e found spelt =>
    have here := place found
    cases kind with
    | number | bool | string | ident =>
      cases spelt
      rw [Expr.relocate, here]
    | punct => cases spelt
    | keyword word =>
      cases word
      case nilKw =>
        cases spelt
        rw [Expr.relocate, here]
      all_goals cases spelt
  | paren opens inner closes fromInner => exact fromInner
  | list opens listed complete each closes fromEach =>
    rw [Expr.relocate, Expr.relocateEach_eq_map, map_of_mem (forall_of_forall_zip complete fromEach), place opens]
  | @map levels i j entries parts opens listed complete keys each closes fromEach =>
    have moved : ∀ entry ∈ entries, Prod.map id (Expr.relocate f) entry = entry :=
      forall_of_forall_zip complete fun entry mem => Prod.ext rfl (fromEach entry mem)
    rw [Expr.relocate, Expr.relocateEntries_eq_map, map_of_mem moved, place opens]
  | call named opens allowed listed complete each closes fromEach =>
    rw [Expr.relocate, Expr.relocateEach_eq_map, map_of_mem (forall_of_forall_zip complete fromEach), place named]
  | field receiver dot named fromReceiver => rw [Expr.relocate, fromReceiver, pos_fixed fromReceiver]
  | method receiver dot named opens allowed listed complete each closes fromReceiver fromEach =>
    rw [Expr.relocate, Expr.relocateEach_eq_map, map_of_mem (forall_of_forall_zip complete fromEach), fromReceiver,
      pos_fixed fromReceiver]
  | index receiver opens allowed inner closes fromReceiver fromInner =>
    rw [Expr.relocate, fromReceiver, fromInner, place opens]
  | un signs operand fromOperand => rw [Expr.relocate, fromOperand, place signs]
  | tighter below inner fromInner => exact fromInner
  | bin first joins second fromFirst fromSecond => rw [Expr.relocate, fromFirst, fromSecond, place joins]

end Expressions

/-! ### Phrases -/

/-- A map leaves a phrase where it is. -/
def Phrase.Fixed (f : Pos → Pos) : Phrase → Prop
  | .token _ => True
  | .expr _ e => e.relocate f = e
  | .simple _ t | .stmt _ t => t.relocate f = t
  | .block _ body | .braces _ body | .loop _ body => body.map (Stmt.relocate f) = body
  | .chain _ _ rest => rest.1.map (relocateBranch f) = rest.1 ∧ rest.2.map (List.map (Stmt.relocate f)) = rest.2
  | .params ps => ps.map (Param.relocate f) = ps
  | .item i => i.relocate f = i
  | .items is => is.map (Item.relocate f) = is

theorem target_fixed {e : Expr} {target : Target} (ofE : e.relocate f = e) (found : Parser.target? e = some target) :
    target.relocate f = target := by
  have moved := target?_relocate f e
  rw [ofE, found] at moved
  exact (Option.some.inj moved).symm

/-- A phrase that takes down a place has a token at it. -/
theorem Produces.fixed {pos : Pos} {p : Phrase} {parts : List Phrase} (rule : Produces pos p parts)
    (place : (∃ q ∈ parts, q.isSolid = true) → f pos = pos) (each : ∀ q ∈ parts, q.Fixed f) : p.Fixed f := by
  cases rule with
  | @assign levels e value kind op target assigns named =>
    have ofTarget := target_fixed (each (.expr levels e) (by simp)) named
    have ofValue : value.relocate f = value := each (.expr levels value) (by simp)
    rw [Phrase.Fixed, Stmt.relocate, ofTarget, ofValue, place ⟨.token kind, by simp, rfl⟩]
  | @declare levels name part | @ret levels part | @count levels var start stop part body =>
    cases part <;> simp_all [Phrase.Fixed, Stmt.relocate, Phrase.isSolid]
  | @clauses levels init step test body =>
    cases init <;> cases step <;> cases test <;> simp_all [Phrase.Fixed, Stmt.relocate, Phrase.isSolid]
  | bracedElseif either =>
    rcases either with rfl | rfl <;> simp_all [Phrase.Fixed, relocateBranch]
  | keywordBranch present | keywordLoop present | keywordElseif present | bracedFunction present
  | keywordFunction present =>
    cases present <;> simp_all [Phrase.Fixed, Phrase.perhaps, Stmt.relocate, Item.relocate, FnDef.relocate,
      relocateBranch, Phrase.isSolid]
  | _ => simp_all [Phrase.Fixed, Stmt.relocate, Item.relocate, Param.relocate, relocateBranch, Phrase.isSolid]

theorem Yields.fixed {s : TokenStream} {phrases : List Phrase} {i j : Nat} (fixed : ∀ t ∈ s.tokens, f t.pos = t.pos)
    (yields : Yields s phrases i j) (inside : i ≤ s.tokens.length) : ∀ p ∈ phrases, p.Fixed f := by
  induction yields with
  | nil => exact List.forall_mem_nil _
  | token found rest fromRest =>
    exact List.forall_mem_cons.mpr ⟨trivial, fromRest (TokenStream.lt_of_cursor_kind found)⟩
  | expr read derives rest fromRest =>
    exact List.forall_mem_cons.mpr ⟨derives.relocate_eq fixed, fromRest derives.le_length⟩
  | phrase rule inner rest fromInner fromRest =>
    have bounds := inner.bounds inside
    refine List.forall_mem_cons.mpr ⟨rule.fixed (fun solid => ?_) (fromInner inside), fromRest bounds.2⟩
    exact place_fixed fixed (Nat.lt_of_lt_of_le (inner.lt solid) bounds.2)

/-- A map that leaves the tokens where they are leaves the program where it is. -/
theorem relocate_of_parse {s : TokenStream} {p : Program} (accepted : Parser.parse s = .ok p)
    (fixed : ∀ t ∈ s.tokens, f t.pos = t.pos) : p.relocate f = p :=
  congrArg Program.mk ((parse_yields accepted).fixed fixed (Nat.zero_le _) (.items p.items) (List.mem_singleton_self _))

/-- A program that compiles stands on the tokens of its text, on lines from one on. -/
theorem places_of_compile {source : String} {program : Program} {warnings : List Diagnostic}
    (accepted : compile source = .ok (program, warnings)) :
    ∃ s, Lexer.tokenize source = .ok s ∧ (∀ t ∈ s.tokens, t.pos.line ≠ 0) ∧
      ∀ f : Pos → Pos, (∀ t ∈ s.tokens, f t.pos = t.pos) → program.relocate f = program := by
  obtain ⟨s, read, parsed, -⟩ := read_of_compile accepted
  refine ⟨s, read, fun t mem => ?_, fun f fixed => relocate_of_parse parsed fixed⟩
  have line := (Lexer.cut_of_tokenize read).sorted.2 t mem
  omega

end Sketch
