import Sketch.Proofs.Layout.Marks

/-!
Levels, token by token, as the formatter counts them. All that the parser reads ends no higher than it began, unless a
keyword is judged wrongly by the braces on its line.
-/

namespace Sketch

open Sketch.Parser (sym kw)

namespace TokenKind

/-- The change of level that a token makes, on a line with or without a brace. -/
def delta (braces : Bool) : TokenKind → Int
  | .punct .lparen | .punct .lbracket | .punct .lbrace | .keyword .thenKw | .keyword .doKw => 1
  | .punct .rparen | .punct .rbracket | .punct .rbrace | .keyword .endKw => -1
  | .keyword .functionKw => if braces then 0 else 1
  | .keyword .elseifKw => if braces then 0 else -1
  | _ => 0

/-- The most by which a token raises the level, whatever else is on its line. -/
def most (kind : TokenKind) : Int := max (kind.delta true) (kind.delta false)

def isBrace : TokenKind → Bool
  | .punct .lbrace | .punct .rbrace => true
  | _ => false

/-- Whether a token stands in front of the test of a branch or behind it. -/
def framesTest : TokenKind → Bool
  | .keyword .ifKw | .keyword .elseifKw | .keyword .thenKw => true
  | _ => false

/-- Whether a token counts nothing in an expression. -/
def isCalm (kind : TokenKind) : Bool := kind.most ≤ 0 && !kind.framesTest

theorem delta_le_most (braces : Bool) (kind : TokenKind) : kind.delta braces ≤ kind.most := by
  cases braces
  · exact Int.le_max_right _ _
  · exact Int.le_max_left _ _

end TokenKind

namespace TokenStream

variable (s : TokenStream) (i : Nat)

/-- Whether there is a brace on a line. -/
def hasBrace (line : Nat) : Bool := (Layout.tokensOn s.tokens line).any (·.isBrace)

/-- The change of level by a token where it stands. -/
def change (t : Token) : Int := t.kind.delta (s.hasBrace t.pos.line)

/-- The change of level by tokens. -/
def changes (tokens : List Token) : Int := tokens.foldr (fun t rest => s.change t + rest) 0

/-- The level in front of the token at an index. -/
def level : Int := s.changes (s.tokens.take i)

/-- The first token of some kinds behind an index. -/
def FirstBehind (kinds : TokenKind → Bool) (j : Nat) : Prop :=
  i < j ∧ (s.cursor j).kind.any kinds = true ∧ s.Avoids (i + 1) kinds j

/-- The keyword of a function whose body stands in braces, none of them on its line. -/
def AwayFromBraces : Prop :=
  (s.cursor i).kind = some (kw .functionKw) ∧ s.hasBrace (s.cursor i).pos.line = false ∧
    ∃ j < s.tokens.length, s.FirstBehind i (· = sym .rparen) j ∧ (s.cursor (j + 1)).kind = some (sym .lbrace)

/-- An `elseif` with its `then`, which has a brace on its line, as of a map. -/
def AmongBraces : Prop :=
  (s.cursor i).kind = some (kw .elseifKw) ∧ s.hasBrace (s.cursor i).pos.line = true ∧
    ∃ j < s.tokens.length, s.FirstBehind i (·.framesTest) j ∧ (s.cursor j).kind = some (kw .thenKw)

/-- A keyword that the braces on its line assign to a block of the other style. -/
def Misjudged : Prop := s.AwayFromBraces i ∨ s.AmongBraces i

instance (kinds : TokenKind → Bool) (j : Nat) : Decidable (s.FirstBehind i kinds j) :=
  inferInstanceAs (Decidable (_ ∧ _ ∧ ∀ k < _, _ → _))

instance : Decidable (s.Misjudged i) :=
  inferInstanceAs (Decidable ((_ ∧ _ ∧ ∃ j < _, _ ∧ _) ∨ (_ ∧ _ ∧ ∃ j < _, _ ∧ _)))

theorem changes_cons (t : Token) (tokens : List Token) : s.changes (t :: tokens) = s.change t + s.changes tokens := rfl

theorem changes_append (front back : List Token) : s.changes (front ++ back) = s.changes front + s.changes back := by
  induction front with
  | nil => exact (Int.zero_add _).symm
  | cons t front ih =>
    rw [List.cons_append, changes_cons, changes_cons, ih, Int.add_assoc]

variable {s i} {j k : Nat} {kind : TokenKind} {kinds : TokenKind → Bool}

theorem level_succ (found : (s.cursor i).kind = some kind) :
    s.level (i + 1) = s.level i + kind.delta (s.hasBrace (s.cursor i).pos.line) := by
  have inside := lt_of_cursor_kind found
  rw [cursor_kind, List.getElem?_eq_getElem inside] at found
  rw [level, take_succ inside, changes_append, cursor_pos, List.getElem?_eq_getElem inside, ← Option.some.inj found]
  exact congrArg (s.level i + ·) (Int.add_zero _)

theorem level_succ_le (found : (s.cursor i).kind = some kind) : s.level (i + 1) ≤ s.level i + kind.most := by
  rw [level_succ found]
  exact Int.add_le_add_left (kind.delta_le_most _) _

end TokenStream

/-! ### Tokens that do not rise -/

/-- The level at `j` is the lowest from `i` on, and at least `n` below that at `i`. -/
structure Falls (s : TokenStream) (n i j : Nat) : Prop where
  net : s.level j + n ≤ s.level i
  lowest : ∀ k, i ≤ k → k ≤ j → s.level j ≤ s.level k

/-- What can be said of the tokens of an expression. -/
structure Calm (s : TokenStream) (i j : Nat) : Prop where
  falls : Falls s 0 i j
  inner : s.Avoids i (·.framesTest) j

section Falls

variable {s : TokenStream} {m n i j k : Nat} {kind opener closer : TokenKind}

theorem Falls.refl (s : TokenStream) (i : Nat) : Falls s 0 i i := by
  refine ⟨by simp, fun k before behind => ?_⟩
  rw [Nat.le_antisymm before behind]

theorem Falls.mono (falls : Falls s m i j) (less : n ≤ m) : Falls s n i j := by
  have net := falls.net
  exact ⟨by omega, falls.lowest⟩

theorem Falls.append (first : Falls s m i j) (second : Falls s n j k) : Falls s (m + n) i k := by
  have low := first.net
  have lower := second.net
  refine ⟨by omega, fun l before behind => ?_⟩
  rcases Nat.le_total l j with front | back
  · have := first.lowest l before front
    omega
  · exact second.lowest l back behind

/-- A token that raises the level, in front of others that fall by as much. -/
theorem Falls.cons {rise : Int} (raised : s.level (i + 1) ≤ s.level i + rise) (rest : Falls s m (i + 1) j)
    (enough : n + rise ≤ m) : Falls s n i j := by
  have net := rest.net
  refine ⟨by omega, fun k before behind => ?_⟩
  rcases Nat.eq_or_lt_of_le before with rfl | inside
  · omega
  · exact rest.lowest k inside behind

theorem Calm.nil (s : TokenStream) (i : Nat) : Calm s i i := ⟨.refl s i, .nil⟩

theorem Calm.append (first : Calm s i j) (second : Calm s j k) : Calm s i k :=
  ⟨first.falls.append second.falls, first.inner.append second.inner⟩

theorem Calm.token (found : (s.cursor i).kind = some kind) (calm : kind.isCalm = true) : Calm s i (i + 1) := by
  simp only [TokenKind.isCalm, Bool.and_eq_true, decide_eq_true_eq, Bool.not_eq_true'] at calm
  exact ⟨(Falls.refl s (i + 1)).cons (TokenStream.level_succ_le found) (by omega), .cons found calm.2 .nil⟩

/-- A bracket that is opened, something calm, and the bracket that closes it. -/
theorem Calm.bracket (opens : (s.cursor i).kind = some opener) (inner : Calm s (i + 1) j)
    (closes : (s.cursor j).kind = some closer) (pair : opener.most = 1 ∧ closer.most = -1)
    (others : opener.framesTest = false ∧ closer.framesTest = false) : Calm s i (j + 1) := by
  have last : Falls s 1 j (j + 1) := (Falls.refl s (j + 1)).cons (TokenStream.level_succ_le closes) (by omega)
  exact ⟨(inner.falls.append last).cons (TokenStream.level_succ_le opens) (by omega),
    .cons opens others.1 (inner.inner.append (.cons closes others.2 .nil))⟩

theorem calm_of_isInner (inner : kind.isInner = true) : kind.isCalm = true := by
  cases kind with
  | number | bool | string | ident => rfl
  | keyword word => cases word <;> first | rfl | cases inner
  | punct symbol => cases symbol <;> first | rfl | cases inner

/-- Brackets are closed inside an expression, and nothing else in it counts. -/
theorem Derives.calm {rule : Bracket → Nat → Prop} {levels tier : Nat} {e : Expr}
    (derives : Derives s rule levels tier e i j) : Calm s i j := by
  refine derives.spans (fun found inner => .token found (calm_of_isInner inner)) Calm.append ?_
  intro i j p closer opener opens inner closes
  have inner : Calm s (i + 1) j := by
    rcases inner with rfl | inner
    · exact .nil s _
    · exact inner
  cases p
  case lparen | lbracket | lbrace =>
    cases opener
    exact inner.bracket opens closes (by decide) (by decide)
  all_goals cases opener

end Falls

/-! ### Phrases -/

namespace Phrase

/-- The levels that a phrase closes. A chain up to `end` is inside the level of its first branch. -/
def closes : Phrase → Nat
  | .chain false _ _ => 1
  | _ => 0

/-- How far a phrase raises the level at most. -/
def rise : Phrase → Int
  | .token kind => kind.most
  | p => -p.closes

/-- How far phrases fall, if each that rises is made up for by what is behind it. -/
def sinks : List Phrase → Option Nat
  | [] => some 0
  | p :: rest => (sinks rest).bind fun m => (m - p.rise).toNat?

theorem sinks_cons {p : Phrase} {rest : List Phrase} {n : Nat} (sinks : sinks (p :: rest) = some n) :
    ∃ m : Nat, Phrase.sinks rest = some m ∧ n + p.rise = m := by
  obtain ⟨m, ofRest, same⟩ := Option.bind_eq_some_iff.mp sinks
  have fallen := Int.mem_toNat?.mp same
  exact ⟨m, ofRest, by omega⟩

end Phrase

section Phrases

variable {s : TokenStream} {p : Phrase} {kind : TokenKind} {parts phrases : List Phrase} {i j k : Nat}

/-- The keyword of a function with a body in braces, none of them on its line. -/
theorem awayFromBraces_of_yields {name : String} {params : List Param} {body : List Stmt} {levels : Nat}
    (yields : Yields s [.token (kw .functionKw), .token (.ident name), .token (sym .lparen), .params params,
      .token (sym .rparen), .braces levels body] i k) (bare : s.hasBrace (s.cursor i).pos.line = false) :
    s.AwayFromBraces i := by
  obtain ⟨isFunction, rest⟩ := yields.token_inv
  obtain ⟨named, rest⟩ := rest.token_inv
  obtain ⟨opens, rest⟩ := rest.token_inv
  obtain ⟨j, forward, others, rest⟩ := rest.behindParams
  obtain ⟨closes, rest⟩ := rest.token_inv
  refine ⟨isFunction, bare, j, TokenStream.lt_of_cursor_kind closes, ⟨by omega, by simp [closes], ?_⟩, ?_⟩
  · exact .cons named rfl (.cons opens rfl others)
  · cases rest with
    | phrase rule inner =>
      cases rule
      exact inner.token_inv.1

/-- An `elseif` with its `then` and with a brace on its line. -/
theorem amongBraces_of_yields {levels : Nat} {test : Expr}
    (yields : Yields s (.token (kw .elseifKw) :: .expr levels test :: .token (kw .thenKw) :: phrases) i k)
    (braces : s.hasBrace (s.cursor i).pos.line = true) : s.AmongBraces i := by
  obtain ⟨isElseif, rest⟩ := yields.token_inv
  cases rest with
  | phrase rule => cases rule
  | @expr _ _ _ _ j _ read derives rest =>
    have isThen := rest.token_inv.1
    refine ⟨isElseif, braces, j, TokenStream.lt_of_cursor_kind isThen,
      ⟨Nat.lt_of_succ_lt derives.lt, ?_, derives.calm.inner⟩,
      isThen⟩
    rw [isThen]
    rfl

/-- The parts of a production make up for each other, but where a keyword is misjudged. -/
theorem Produces.falls (rule : Produces (s.cursor i).pos p parts) (inner : Yields s parts i j)
    (judged : i < j → ¬s.Misjudged i) (whole : ∀ n, Phrase.sinks parts = some n → Falls s n i j)
    (tail : ∀ kind rest n, parts = .token kind :: rest → Phrase.sinks rest = some n → Falls s n (i + 1) j) :
    Falls s p.closes i j := by
  have enough {n : Nat} (sinks : Phrase.sinks parts = some n) (enough : Nat.ble p.closes n = true) :
      Falls s p.closes i j := (whole n sinks).mono (Nat.le_of_ble_eq_true enough)
  cases rule with
  | @assign _ _ _ kind op _ assigns named =>
    rw [Parser.assignOp?.eq_def] at assigns
    split at assigns
    case h_6 => cases assigns
    all_goals exact enough rfl rfl
  | @declare _ _ init => cases init <;> exact enough rfl rfl
  | @ret _ value => cases value <;> exact enough rfl rfl
  | @count _ _ _ _ step => cases step <;> exact enough rfl rfl
  | @clauses _ init step test => cases init <;> cases test <;> cases step <;> exact enough rfl rfl
  | keywordBranch present | keywordLoop present | keywordFunction present => cases present <;> exact enough rfl rfl
  | bracedElseif either => rcases either with rfl | rfl <;> exact enough rfl rfl
  | keywordElseif present =>
    cases present with
    | false => exact enough rfl rfl
    | true =>
      obtain ⟨isElseif, rest⟩ := inner.token_inv
      have judged := judged (rest.bounds (TokenStream.lt_of_cursor_kind isElseif)).1
      have raised : s.level (i + 1) ≤ s.level i + -1 := by
        rw [TokenStream.level_succ isElseif, Bool.eq_false_iff.mpr fun braces =>
          judged (.inr (amongBraces_of_yields inner braces))]
        rfl
      exact (tail _ _ _ rfl rfl).cons raised (Int.le_refl 0)
  | bracedFunction present =>
    cases present with
    | false => exact enough rfl rfl
    | true =>
      obtain ⟨isFunction, rest⟩ := inner.token_inv
      have judged := judged (rest.bounds (TokenStream.lt_of_cursor_kind isFunction)).1
      have raised : s.level (i + 1) ≤ s.level i + 0 := by
        rw [TokenStream.level_succ isFunction, Bool.of_not_eq_false fun bare =>
          judged (.inl (awayFromBraces_of_yields inner bare))]
        rfl
      exact (tail _ _ _ rfl rfl).cons raised (Int.le_refl 0)
  | _ => exact enough rfl rfl

/-- Phrases fall as far as is counted, and so do those behind a first token. -/
theorem Yields.falls (yields : Yields s phrases i j) (inside : i ≤ s.tokens.length)
    (judged : ∀ k < j, ¬s.Misjudged k) : (∀ n, Phrase.sinks phrases = some n → Falls s n i j) ∧
      ∀ kind rest n, phrases = .token kind :: rest → Phrase.sinks rest = some n → Falls s n (i + 1) j := by
  induction yields with
  | nil =>
    refine ⟨fun n sinks => ?_, fun kind rest n same => by cases same⟩
    cases sinks
    exact .refl s _
  | token found rest fromRest =>
    obtain ⟨falls, -⟩ := fromRest (TokenStream.lt_of_cursor_kind found) judged
    refine ⟨fun n sinks => ?_, fun kind rest n same sinks => ?_⟩
    · obtain ⟨m, ofRest, fallen⟩ := Phrase.sinks_cons sinks
      exact (falls m ofRest).cons (TokenStream.level_succ_le found) (Int.le_of_eq fallen)
    · cases same
      exact falls n sinks
  | expr read derives rest fromRest =>
    obtain ⟨falls, -⟩ := fromRest derives.le_length judged
    refine ⟨fun n sinks => ?_, fun kind rest n same => by cases same⟩
    obtain ⟨m, ofRest, fallen⟩ := Phrase.sinks_cons sinks
    have still : (n : Int) + 0 = m := fallen
    exact (derives.calm.falls.append (falls m ofRest)).mono (by omega)
  | @phrase p parts phrases i j k rule inner rest fromInner fromRest =>
    have within := inner.bounds inside
    have beyond := rest.bounds within.2
    have judged' : ∀ l < j, ¬s.Misjudged l := fun l before => judged l (Nat.lt_of_lt_of_le before beyond.1)
    obtain ⟨whole, tail⟩ := fromInner inside judged'
    obtain ⟨falls, -⟩ := fromRest within.2 judged
    refine ⟨fun n sinks => ?_, fun kind rest n same => ?_⟩
    · obtain ⟨m, ofRest, fallen⟩ := Phrase.sinks_cons sinks
      have closed : p.rise = -p.closes := by cases rule <;> rfl
      exact ((rule.falls inner (judged' i) whole tail).append (falls m ofRest)).mono (by omega)
    · cases same
      cases rule

end Phrases

end Sketch
