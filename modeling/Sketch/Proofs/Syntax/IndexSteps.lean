import Sketch.Proofs.Syntax.Cursors
import Sketch.Proofs.Syntax.IndexParser

/-!
The small steps of the parser that keeps its own books. Where a cursor stands, the entry with the same index says the
same.
-/

namespace Sketch

open Sketch.Parser (Cursor Round sym kw)

namespace TokenStream

variable {s : TokenStream} {i : Nat}

theorem marks_length : s.marks.length = s.tokens.length + 1 := by
  simp [marks]

/-- The entries of the list are what the cursors see. -/
theorem marks_getElem? (inside : i ≤ s.tokens.length) : s.marks[i]? = some ⟨(s.cursor i).kind, (s.cursor i).pos⟩ := by
  rw [cursor_kind, cursor_pos, marks]
  rcases Nat.lt_or_eq_of_le inside with before | rfl
  · simp [List.getElem?_append_left, before]
  · simp

end TokenStream

namespace IndexParser

variable {α β : Type} {s : TokenStream} {nesting functions i : Nat}

section Binds

variable {q : Read α} {g : α → Read β} {b b' : Books}

theorem bind_of_ok {a : α} (read : q b = some (.ok a, b')) : (q >>= g) b = g a b' := by
  change (q b).bind (fun r => ExceptT.bindCont g r.1 r.2) = _
  rw [read]
  rfl

theorem bind_of_error {h : Halt} (read : q b = some (.error h, b')) : (q >>= g) b = some (.error h, b') := by
  change (q b).bind (fun r => ExceptT.bindCont g r.1 r.2) = _
  rw [read]
  rfl

theorem tryCatch_of_ok {h : Halt → Read α} {a : α} (read : q b = some (.ok a, b')) :
    tryCatch q h b = some (.ok a, b') := by
  change (q b).bind _ = _
  rw [read]
  rfl

theorem tryCatch_of_error {h : Halt → Read α} {halt : Halt} (read : q b = some (.error halt, b')) :
    tryCatch q h b = h halt b' := by
  change (q b).bind _ = _
  rw [read]
  rfl

end Binds

/-! ### Small steps -/

theorem look_eq (inside : i ≤ s.tokens.length) (b : Books) :
    look s i b = some (.ok ⟨(s.cursor i).kind, (s.cursor i).pos⟩, b) := by
  rw [look, TokenStream.marks_getElem? inside]
  rfl

theorem mark_eq (inside : i ≤ s.tokens.length) : mark s ⟨i, nesting, functions⟩ =
    some (.ok ⟨(s.cursor i).kind, (s.cursor i).pos⟩, ⟨i, nesting, functions⟩) :=
  look_eq inside _

theorem lastLine_eq (inside : i ≤ s.tokens.length) : lastLine s ⟨i, nesting, functions⟩ =
    some (.ok (s.cursor i).lastLine, ⟨i, nesting, functions⟩) := by
  cases i with
  | zero => rfl
  | succ i =>
    rw [TokenStream.cursor_lastLine inside]
    exact bind_of_ok (look_eq (Nat.le_of_lt inside) _)

theorem peek_eq (inside : i ≤ s.tokens.length) : peek s ⟨i, nesting, functions⟩ =
    some (.ok (s.cursor i).kind, ⟨i, nesting, functions⟩) := by
  rw [peek, bind_of_ok (mark_eq inside)]
  rfl

theorem here_eq (inside : i ≤ s.tokens.length) : here s ⟨i, nesting, functions⟩ =
    some (.ok (s.cursor i).pos, ⟨i, nesting, functions⟩) := by
  rw [here, bind_of_ok (mark_eq inside)]
  rfl

theorem advance_eq (inside : i < s.tokens.length) : advance s ⟨i, nesting, functions⟩ =
    some (.ok ⟨(s.cursor i).kind, (s.cursor i).pos⟩, ⟨i + 1, nesting, functions⟩) := by
  rw [advance, bind_of_ok (mark_eq (Nat.le_of_lt inside))]
  have moves : i + 1 < s.marks.length := by
    rw [TokenStream.marks_length]
    omega
  change some (_, if i + 1 < s.marks.length then _ else _) = _
  rw [if_pos moves]

theorem advance_end (ended : i = s.tokens.length) : advance s ⟨i, nesting, functions⟩ =
    some (.ok ⟨(s.cursor i).kind, (s.cursor i).pos⟩, ⟨i, nesting, functions⟩) := by
  rw [advance, bind_of_ok (mark_eq (Nat.le_of_eq ended))]
  have stays : ¬ i + 1 < s.marks.length := by
    rw [TokenStream.marks_length]
    omega
  change some (_, if i + 1 < s.marks.length then _ else _) = _
  rw [if_neg stays]

theorem skip_eq (inside : i < s.tokens.length) : skip s ⟨i, nesting, functions⟩ =
    some (.ok (), ⟨i + 1, nesting, functions⟩) := by
  rw [skip, bind_of_ok (advance_eq inside)]
  rfl

theorem check_eq (inside : i ≤ s.tokens.length) (kind : TokenKind) : check s kind ⟨i, nesting, functions⟩ =
    some (.ok (decide ((s.cursor i).kind = some kind)), ⟨i, nesting, functions⟩) := by
  rw [check, bind_of_ok (peek_eq inside)]
  rfl

variable {kind : TokenKind} {kinds : TokenKind → Bool} {j : Nat}

theorem accept_of_eq (found : (s.cursor i).kind = some kind) :
    accept s kind ⟨i, nesting, functions⟩ = some (.ok true, ⟨i + 1, nesting, functions⟩) := by
  have inside := TokenStream.lt_of_cursor_kind found
  rw [accept, bind_of_ok (check_eq (Nat.le_of_lt inside) kind), if_pos (decide_eq_true found),
    bind_of_ok (skip_eq inside)]
  rfl

theorem accept_of_ne (inside : i ≤ s.tokens.length) (other : (s.cursor i).kind ≠ some kind) :
    accept s kind ⟨i, nesting, functions⟩ = some (.ok false, ⟨i, nesting, functions⟩) := by
  rw [accept, bind_of_ok (check_eq inside kind), decide_eq_false other]
  rfl

theorem expect_of_eq (found : (s.cursor i).kind = some kind) :
    expect s kind ⟨i, nesting, functions⟩ = some (.ok (), ⟨i + 1, nesting, functions⟩) := by
  have inside := TokenStream.lt_of_cursor_kind found
  rw [expect, bind_of_ok (check_eq (Nat.le_of_lt inside) kind), if_pos (decide_eq_true found), skip_eq inside]

theorem failHere_eq (inside : i ≤ s.tokens.length) (fault : Fault) :
    (failHere s fault : Read α) ⟨i, nesting, functions⟩ =
      some (.error (.mistake ⟨fault, (s.cursor i).pos⟩), ⟨i, nesting, functions⟩) := by
  rw [failHere, bind_of_ok (here_eq inside)]
  rfl

theorem expect_of_ne (inside : i ≤ s.tokens.length) (other : (s.cursor i).kind ≠ some kind) :
    expect s kind ⟨i, nesting, functions⟩ =
      failHere s (.missingToken kind (s.cursor i).kind) ⟨i, nesting, functions⟩ := by
  rw [expect, bind_of_ok (check_eq inside kind), decide_eq_false other]
  exact bind_of_ok (peek_eq inside)

theorem indexFollows_eq (inside : i ≤ s.tokens.length) : indexFollows s ⟨i, nesting, functions⟩ =
    some (.ok (decide ((s.cursor i).kind = some (sym .lbracket) ∧ (s.cursor i).pos.line = (s.cursor i).lastLine)),
      ⟨i, nesting, functions⟩) := by
  rw [indexFollows, bind_of_ok (mark_eq inside)]
  rw [bind_of_ok (lastLine_eq inside)]
  rfl

theorem callFollows_eq (inside : i ≤ s.tokens.length) (line : Nat) : callFollows s line ⟨i, nesting, functions⟩ =
    some (.ok (decide ((s.cursor i).kind = some (sym .lparen) ∧ (s.cursor i).pos.line = line)),
      ⟨i, nesting, functions⟩) := by
  rw [callFollows, bind_of_ok (mark_eq inside)]
  rfl

theorem pass_of_any (more : (s.cursor i).kind.any kinds = true) :
    pass s kinds ⟨i, nesting, functions⟩ = pass s kinds ⟨i + 1, nesting, functions⟩ := by
  obtain ⟨kind, found, -⟩ := (Option.any_eq_true ..).mp more
  have within := TokenStream.lt_of_cursor_kind found
  conv => lhs; rw [pass, bind_of_ok (peek_eq (Nat.le_of_lt within)), if_pos more, bind_of_ok (skip_eq within)]

theorem pass_of_not_any (inside : i ≤ s.tokens.length) (ended : (s.cursor i).kind.any kinds = false) :
    pass s kinds ⟨i, nesting, functions⟩ = some (.ok (), ⟨i, nesting, functions⟩) := by
  rw [pass, bind_of_ok (peek_eq inside), ended]
  rfl

/-- Recovery leads from one place to another. -/
structure Recovers (s : TokenStream) (i j : Nat) : Prop where
  forward : i ≤ j
  inside : j ≤ s.tokens.length
  avoids : s.Avoids i Parser.isRestart j
  read : ∀ s' : TokenStream, s'.tokens.map (·.kind) = s.tokens.map (·.kind) → (s'.cursor i).recover = s'.cursor j
  books : ∀ nesting functions, recover s ⟨i, nesting, functions⟩ = some (.ok (), ⟨j, nesting, functions⟩)

/-- It leads up to the first token at which reading can start again. -/
theorem exists_recovers {i : Nat} (inside : i ≤ s.tokens.length) : ∃ j, Recovers s i j := by
  cases more : (s.cursor i).kind.any (!Parser.isRestart ·) with
  | false =>
    refine ⟨i, Nat.le_refl i, inside, .nil, fun s' same => ?_, fun _ _ => pass_of_not_any inside more⟩
    rw [← TokenStream.cursor_kind_congr same] at more
    exact Cursor.pass_of_false more
  | true =>
    obtain ⟨kind, found, other⟩ := (Option.any_eq_true ..).mp more
    have within := TokenStream.lt_of_cursor_kind found
    obtain ⟨j, rest⟩ := exists_recovers within
    refine ⟨j, Nat.le_of_lt rest.forward, rest.inside, .cons found (Bool.not_eq_true' _ ▸ other) rest.avoids, ?_, ?_⟩
    · intro s' same
      rw [← TokenStream.cursor_kind_congr same] at more found
      have read := rest.read s' same
      rw [← TokenStream.cursor_advance (TokenStream.lt_of_cursor_kind found)] at read
      exact (Cursor.pass_of_true more).trans read
    · exact fun nesting functions => (pass_of_any more).trans (rest.books nesting functions)
termination_by s.tokens.length - i

/-! ### Looking ahead for a function -/

theorem kindAt_eq (i : Nat) : kindAt s i = (s.cursor i).kind := by
  rcases Nat.lt_or_ge s.tokens.length i with outside | inside
  · have none : s.marks[i]? = none := List.getElem?_eq_none (by rw [TokenStream.marks_length]; omega)
    rw [kindAt, none, TokenStream.cursor_kind_end (Nat.le_of_lt outside)]
    rfl
  · rw [kindAt, TokenStream.marks_getElem? inside]
    rfl

/-- The kind of the token at an index of a list. -/
def kindIn (tokens : List Token) (k : Nat) : Option TokenKind := tokens[k]?.map (·.kind)

theorem kindAt_add (k : Nat) : kindAt s (i + k) = kindIn (s.tokens.drop i) k := by
  rw [kindAt_eq, TokenStream.cursor_kind, kindIn, List.getElem?_drop]

theorem closesParameters_eq_ite (tokens : List Token) : Parser.closesParameters tokens =
    if kindIn tokens 0 = some (sym .comma) ∧ isName (kindIn tokens 1) then Parser.closesParameters (tokens.drop 2)
    else decide (kindIn tokens 0 = some (sym .rparen) ∧ kindIn tokens 1 = some (sym .lbrace)) := by
  rcases tokens with _ | ⟨⟨kind, pos⟩, rest⟩
  · rfl
  cases kind with
  | number | bool | string | ident | keyword => rfl
  | punct symbol =>
    cases symbol
    case comma =>
      rcases rest with _ | ⟨⟨kind', pos'⟩, rest⟩
      · rfl
      cases kind' <;> rfl
    case rparen =>
      rcases rest with _ | ⟨⟨kind', pos'⟩, rest⟩
      · rfl
      cases kind' with
      | number | bool | string | ident | keyword => rfl
      | punct symbol => cases symbol <;> rfl
    all_goals rfl

/-- The look ahead, by the kinds of the first tokens. -/
theorem isShorthand_eq_ite (tokens : List Token) : Parser.isShorthand tokens =
    if isName (kindIn tokens 0) ∧ kindIn tokens 1 = some (sym .lparen) then
      if isName (kindIn tokens 2) then Parser.closesParameters (tokens.drop 3)
      else decide (kindIn tokens 2 = some (sym .rparen) ∧ kindIn tokens 3 = some (sym .lbrace))
    else false := by
  rcases tokens with _ | ⟨⟨kind, pos⟩, rest⟩
  · rfl
  cases kind with
  | number | bool | string | punct | keyword => rfl
  | ident name =>
    rcases rest with _ | ⟨⟨kind', pos'⟩, rest⟩
    · rfl
    cases kind' with
    | number | bool | string | ident | keyword => rfl
    | punct symbol =>
      cases symbol
      case lparen =>
        rcases rest with _ | ⟨⟨kind'', pos''⟩, rest⟩
        · rfl
        cases kind'' with
        | number | bool | string | ident | keyword => rfl
        | punct symbol =>
          cases symbol
          case rparen =>
            rcases rest with _ | ⟨⟨kind₃, pos₃⟩, rest⟩
            · rfl
            cases kind₃ with
            | number | bool | string | ident | keyword => rfl
            | punct symbol => cases symbol <;> rfl
          all_goals rfl
      all_goals rfl

section SameKinds

variable {tokens tokens' : List Token} (same : tokens'.map (·.kind) = tokens.map (·.kind))

include same

theorem kindIn_congr (k : Nat) : kindIn tokens' k = kindIn tokens k := by
  rw [kindIn, kindIn, ← List.getElem?_map, same, List.getElem?_map]

theorem map_drop_congr (k : Nat) : (tokens'.drop k).map (·.kind) = (tokens.drop k).map (·.kind) := by
  rw [List.map_drop, same, List.map_drop]

omit same in
theorem closesParameters_congr {tokens tokens' : List Token} (same : tokens'.map (·.kind) = tokens.map (·.kind)) :
    Parser.closesParameters tokens' = Parser.closesParameters tokens := by
  rw [closesParameters_eq_ite, closesParameters_eq_ite tokens]
  simp only [kindIn_congr same]
  split
  case isTrue more =>
    have shorter : (tokens.drop 2).length < tokens.length := by
      cases tokens with
      | nil => cases more.1
      | cons t rest =>
        rw [List.length_drop, List.length_cons]
        omega
    exact closesParameters_congr (map_drop_congr same 2)
  case isFalse => rfl
termination_by tokens.length

/-- Whether tokens look like a function without its keyword depends on their kinds. -/
theorem isShorthand_congr : Parser.isShorthand tokens' = Parser.isShorthand tokens := by
  rw [isShorthand_eq_ite, isShorthand_eq_ite tokens, closesParameters_congr (map_drop_congr same 3)]
  simp only [kindIn_congr same]

end SameKinds

theorem closesParameters_eq (i : Nat) : closesParameters s i = some (Parser.closesParameters (s.tokens.drop i)) := by
  rw [closesParameters, bodyFollows, closesParameters_eq_ite, ← kindAt_add 0, ← kindAt_add 1, Nat.add_zero i]
  by_cases more : kindAt s i = some (sym .comma) ∧ isName (kindAt s (i + 1))
  · have within := TokenStream.lt_of_cursor_kind ((kindAt_eq i).symm.trans more.1)
    rw [if_pos more, if_pos more, closesParameters_eq (i + 2), List.drop_drop]
  · rw [if_neg more, if_neg more]
termination_by s.tokens.length - i

theorem isShorthand_eq (i : Nat) : isShorthand s i = some (Parser.isShorthand (s.tokens.drop i)) := by
  rw [isShorthand, bodyFollows, closesParameters_eq, isShorthand_eq_ite, ← kindAt_add 0, ← kindAt_add 1,
    ← kindAt_add 2, ← kindAt_add 3, Nat.add_zero i, List.drop_drop]
  rw [apply_ite some, apply_ite some]

/-! ### Rounds -/

/-- The place at which the round behind another one starts. -/
def nextStart (i j : Nat) : Nat := if j = i then i + 1 else j

theorem lt_nextStart {i : Nat} (forward : i ≤ j) : i < nextStart i j := by
  rw [nextStart]
  split <;> omega

theorem le_nextStart {i : Nat} : j ≤ nextStart i j := by
  rw [nextStart]
  split <;> omega

theorem nextStart_le {i : Nat} (within : i < s.tokens.length) (inside : j ≤ s.tokens.length) :
    nextStart i j ≤ s.tokens.length := by
  rw [nextStart]
  split <;> omega

/-- One round in front of the others. -/
theorem rounds_cons {r : Round} {t : Token} {fuel : List Token} {hadMistake : Bool}
    (within : i < s.tokens.length) (inside : j ≤ s.tokens.length)
    (read : Parser.round hadMistake (s.cursor i) = (r, s.cursor j)) :
    Parser.rounds (t :: fuel) hadMistake (s.cursor i) =
      ((item? r).toList ++ (Parser.rounds fuel (hadMistake || (mistake? r).isSome) (s.cursor (nextStart i j))).1,
        (mistake? r).toList ++
          (Parser.rounds fuel (hadMistake || (mistake? r).isSome) (s.cursor (nextStart i j))).2) := by
  have more : (s.cursor i).ahead.isEmpty = false := by
    rw [TokenStream.cursor, List.drop_eq_getElem_cons within]
    rfl
  have next : (if (s.cursor j).ahead.length = (s.cursor i).ahead.length then (s.cursor j).advance else s.cursor j) =
      s.cursor (nextStart i j) := by
    have same : (s.cursor j).ahead.length = (s.cursor i).ahead.length ↔ j = i := by
      simp only [TokenStream.cursor, List.length_drop]
      omega
    rw [nextStart]
    by_cases stays : j = i
    · rw [if_pos (same.mpr stays), if_pos stays, stays, TokenStream.cursor_advance within]
    · rw [if_neg (mt same.mp stays), if_neg stays]
  rw [Parser.rounds, more, read]
  simp only [next]
  cases r with
  | item item =>
    rw [mistake?, Option.isSome_none, Bool.or_false]
    rfl
  | mistake d =>
    rw [mistake?, Option.isSome_some, Bool.or_true]
    rfl
  | nothing =>
    rw [mistake?, Option.isSome_none, Bool.or_false]
    rfl

end IndexParser

end Sketch
