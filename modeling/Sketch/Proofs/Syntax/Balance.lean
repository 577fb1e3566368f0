import Sketch.Proofs.Syntax.Phrases

/-!
Balanced brackets. Reading tokens from left to right, the closers that are still due form a stack. What the parser
accepts is balanced, so that it cannot end inside brackets that opened in it.
-/

namespace Sketch

open Sketch.Parser (Parse Cursor sym kw)

/-- The closers that are due behind a token, if it is no closer out of turn. -/
def TokenKind.settle (kind : TokenKind) (due : List Punct) : Option (List Punct) :=
  match kind with
  | .punct p =>
    match p.closer? with
    | some closer => some (closer :: due)
    | none => if p.isCloser then if due.head? = some p then some due.tail else none else some due
  | _ => some due

/-- The closers that are due behind tokens. -/
def settle (tokens : List Token) (due : List Punct) : Option (List Punct) :=
  tokens.foldlM (fun due t => t.kind.settle due) due

/-- Every bracket is closed, in the right order. -/
def Balanced (tokens : List Token) : Prop := settle tokens [] = some []

instance (tokens : List Token) : Decidable (Balanced tokens) := inferInstanceAs (Decidable (_ = _))

variable {kind : TokenKind} {tokens more : List Token} {due due' left : List Punct}

theorem settle_append : settle (tokens ++ more) due = (settle tokens due).bind (settle more) := by
  rw [settle, List.foldlM_append]
  rfl

/-- What is due further out makes no difference as long as it is not reached. -/
theorem TokenKind.settle_frame (settled : kind.settle due = some left) :
    kind.settle (due ++ due') = some (left ++ due') := by
  cases kind with
  | number | bool | string | ident | keyword =>
    cases settled
    rfl
  | punct p =>
    unfold TokenKind.settle at settled ⊢
    cases opens : p.closer? with
    | some closer =>
      simp only [opens] at settled ⊢
      cases settled
      rfl
    | none =>
      simp only [opens] at settled ⊢
      cases closes : p.isCloser with
      | false =>
        simp only [closes] at settled ⊢
        cases settled
        rfl
      | true =>
        -- the closer is the one on top, so the stack is not empty
        cases due with
        | nil => simp [closes] at settled
        | cons first due =>
          by_cases inTurn : first = p
          · simp_all
          · simp [closes, inTurn] at settled

theorem settle_frame (settled : settle tokens due = some left) : settle tokens (due ++ due') = some (left ++ due') := by
  induction tokens generalizing due with
  | nil =>
    cases settled
    rfl
  | cons t tokens ih =>
    obtain ⟨next, first, rest⟩ := Option.bind_eq_some_iff.mp settled
    exact Option.bind_eq_some_iff.mpr ⟨next ++ due', TokenKind.settle_frame first, ih rest⟩

theorem Balanced.settle (balanced : Balanced tokens) (due : List Punct) : settle tokens due = some due :=
  settle_frame balanced

theorem settle_opener {p closer : Punct} (opens : p.closer? = some closer) :
    (sym p).settle due = some (closer :: due) := by
  simp only [TokenKind.settle, opens]

theorem settle_closer {p closer : Punct} (opens : p.closer? = some closer) :
    (sym closer).settle (closer :: due) = some due := by
  cases p
  case lparen | lbracket | lbrace =>
    cases opens
    rfl
  all_goals cases opens

/-! ### Brackets between two places -/

/-- The tokens from an index up to another. -/
def TokenStream.between (s : TokenStream) (i j : Nat) : List Token := (s.tokens.drop i).take (j - i)

variable {s : TokenStream} {i j k : Nat}

theorem between_append (forward : i ≤ j) (further : j ≤ k) : s.between i j ++ s.between j k = s.between i k := by
  rw [TokenStream.between, TokenStream.between, TokenStream.between, ← Nat.add_sub_of_le forward, ← List.drop_drop,
    Nat.add_sub_cancel_left, ← List.take_add]
  congr 1
  omega

theorem between_single (found : (s.cursor i).kind = some kind) : ∃ t, s.between i (i + 1) = [t] ∧ t.kind = kind := by
  have within := TokenStream.lt_of_cursor_kind found
  rw [TokenStream.cursor_kind, List.getElem?_eq_getElem within] at found
  refine ⟨s.tokens[i], ?_, Option.some.inj found⟩
  rw [TokenStream.between, Nat.add_sub_cancel_left, List.drop_eq_getElem_cons within]
  rfl

theorem settle_single (found : (s.cursor i).kind = some kind) : settle (s.between i (i + 1)) due = kind.settle due := by
  obtain ⟨t, same, rfl⟩ := between_single found
  rw [same, settle, List.foldlM_cons]
  exact bind_pure _

/-- Every bracket between two places is closed there. -/
structure Level (s : TokenStream) (i j : Nat) : Prop where
  forward : i ≤ j
  balanced : Balanced (s.between i j)

namespace Level

theorem refl (i : Nat) : Level s i i := by
  refine ⟨Nat.le_refl i, ?_⟩
  rw [TokenStream.between, Nat.sub_self]
  rfl

theorem trans (first : Level s i j) (second : Level s j k) : Level s i k := by
  refine ⟨Nat.le_trans first.forward second.forward, ?_⟩
  rw [← between_append first.forward second.forward, Balanced, settle_append, first.balanced.settle]
  exact second.balanced

/-- A token that is no bracket. -/
theorem single (found : (s.cursor i).kind = some kind) (plain : kind.settle [] = some []) : Level s i (i + 1) :=
  ⟨Nat.le_succ i, (settle_single found).trans plain⟩

theorem enclose {p closer : Punct} (opener : p.closer? = some closer) (opens : (s.cursor i).kind = some (sym p))
    (inner : Level s (i + 1) j) (closes : (s.cursor j).kind = some (sym closer)) : Level s i (j + 1) := by
  refine ⟨Nat.le_succ_of_le (Nat.le_of_succ_le inner.forward), ?_⟩
  rw [Balanced, ← between_append (Nat.le_of_succ_le inner.forward) (Nat.le_succ j),
    ← between_append (Nat.le_succ i) inner.forward, settle_append, settle_append, settle_single opens,
    settle_opener opener]
  change ((settle (s.between (i + 1) j) [closer]).bind _) = _
  rw [inner.balanced.settle, Option.bind_some, settle_single closes, settle_closer opener]

/-- What opens with a bracket ends behind what is balanced inside. -/
theorem lt_of_opener {p closer : Punct} (opener : p.closer? = some closer) (opens : (s.cursor i).kind = some (sym p))
    (level : Level s i j) (forward : i < j) (inner : Level s (i + 1) k) : k < j := by
  refine Nat.lt_of_not_le fun before => ?_
  have whole : settle (s.between (i + 1) j) [closer] = some [] := by
    have balanced := level.balanced
    rwa [← between_append (Nat.le_succ i) forward, Balanced, settle_append, settle_single opens,
      settle_opener opener] at balanced
  have balanced := inner.balanced
  rw [← between_append forward before, Balanced, settle_append] at balanced
  obtain ⟨left, inside, -⟩ := Option.bind_eq_some_iff.mp balanced
  -- the closer of the bracket is still due
  have due : settle (s.between (i + 1) j) [closer] = some (left ++ [closer]) := settle_frame inside
  simp [whole] at due

end Level

theorem Derives.level {rule : Bracket → Nat → Prop} {levels tier : Nat} {e : Expr}
    (derives : Derives s rule levels tier e i j) : Level s i j := by
  refine derives.spans (fun found inner => .single found ?_) Level.trans fun opener opens inner closes => ?_
  · rename_i kind
    cases kind with
    | number | bool | string | ident | keyword => rfl
    | punct symbol => cases symbol <;> first | rfl | cases inner
  · rcases inner with rfl | inner
    · exact .enclose opener opens (.refl _) closes
    · exact .enclose opener opens inner closes

/-! ### Statements and items -/

/-- The closers that are due behind phrases that are balanced each. -/
def Phrase.settle (phrases : List Phrase) (due : List Punct) : Option (List Punct) :=
  phrases.foldlM (fun due phrase => match phrase with | .token kind => kind.settle due | _ => some due) due

/-- Every production is balanced. -/
theorem Produces.settle {pos : Pos} {p : Phrase} {parts : List Phrase} (rule : Produces pos p parts)
    (due : List Punct) : Phrase.settle parts due = some due := by
  cases rule with
  | @assign _ _ _ kind _ _ assigns =>
    have plain : kind.settle due = some due := by
      cases kind with
      | punct p => cases p <;> first | rfl | cases assigns
      | number | bool | string | ident | keyword => rfl
    exact Option.bind_eq_some_iff.mpr ⟨due, plain, rfl⟩
  | @declare _ _ value | @ret _ value | @count _ _ _ _ value => cases value <;> rfl
  | @clauses _ init step test => cases init <;> cases test <;> cases step <;> rfl
  | keywordBranch present | keywordLoop present | keywordElseif present | bracedFunction present
  | keywordFunction present => cases present <;> rfl
  | bracedElseif either => rcases either with rfl | rfl <;> rfl
  | _ => rfl

theorem Yields.settle {phrases : List Phrase} (yields : Yields s phrases i j) :
    settle (s.between i j) due = Phrase.settle phrases due := by
  induction yields generalizing due with
  | nil =>
    rw [TokenStream.between, Nat.sub_self]
    rfl
  | token found rest fromRest =>
    rw [← between_append (Nat.le_succ _) rest.le, settle_append, settle_single found]
    exact congrArg _ (funext fun _ => fromRest)
  | expr read derives rest fromRest =>
    have level := derives.level
    rw [← between_append level.forward rest.le, settle_append, level.balanced.settle]
    exact fromRest
  | phrase rule inner rest fromInner fromRest =>
    rw [← between_append inner.le rest.le, settle_append, fromInner, rule.settle]
    cases rule <;> exact fromRest

end Sketch
