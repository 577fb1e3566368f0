import Sketch.Syntax.Parser

/-!
Parsers that are sure to succeed on what comes next. All tokens stand on one line, so that what comes next is
told by the kinds of the tokens.
-/

namespace Sketch.Parser

variable {α β : Type} {line : Nat} {kind : TokenKind} {kinds rest : List TokenKind} {c : Cursor}

/-- The kinds of the tokens in front of a cursor, all of them on one line. -/
structure Ahead (line : Nat) (kinds : List TokenKind) (c : Cursor) : Prop where
  kindsEq : c.ahead.map (·.kind) = kinds
  onLine : ∀ t ∈ c.ahead, t.pos.line = line

/-- The same behind a token of the line. -/
structure Midway (line : Nat) (kinds : List TokenKind) (c : Cursor) : Prop extends Ahead line kinds c where
  last : c.lastLine = line

namespace Ahead

theorem kind_eq (ahead : Ahead line kinds c) : c.kind = kinds.head? := by
  rw [← ahead.kindsEq, List.head?_map, Cursor.kind]

theorem length_eq (ahead : Ahead line kinds c) : c.ahead.length = kinds.length := by
  rw [← ahead.kindsEq, List.length_map]

/-- The first token with what is behind it. -/
theorem cons (ahead : Ahead line (kind :: rest) c) :
    c.kind = some kind ∧ c.pos.line = line ∧ Midway line rest c.advance := by
  obtain ⟨tokens, stop, last⟩ := c
  cases tokens with
  | nil => cases ahead.kindsEq
  | cons t tokens =>
    obtain ⟨same, others⟩ := List.cons.inj ahead.kindsEq
    have here := ahead.onLine t List.mem_cons_self
    refine ⟨congrArg some same, here, ⟨⟨others, fun t' mem => ?_⟩, here⟩⟩
    exact ahead.onLine t' (List.mem_cons_of_mem t mem)

end Ahead

/-- A parser succeeds at a cursor, with a value and a cursor as described. -/
def Gets (p : Parse α) (c : Cursor) (R : α → Cursor → Prop) : Prop := ∃ a c', p c = .ok a c' ∧ R a c'

namespace Gets

variable {p : Parse α} {R : β → Cursor → Prop}

theorem pure {R : α → Cursor → Prop} {a : α} (holds : R a c) : Gets (pure a) c R := ⟨a, c, rfl, holds⟩

theorem bind {Q : α → Cursor → Prop} {f : α → Parse β} (first : Gets p c Q)
    (second : ∀ a c', Q a c' → Gets (f a) c' R) : Gets (p >>= f) c R := by
  obtain ⟨a, c', read, holds⟩ := first
  obtain ⟨b, c'', read', holds'⟩ := second a c' holds
  refine ⟨b, c'', ?_, holds'⟩
  change EStateM.bind p f c = _
  rw [EStateM.bind, read]
  exact read'

theorem map {f : α → β} (first : Gets p c fun a c' => R (f a) c') : Gets (f <$> p) c R := by
  obtain ⟨a, c', read, holds⟩ := first
  refine ⟨f a, c', ?_, holds⟩
  change EStateM.map f p c = _
  rw [EStateM.map, read]

theorem mono {Q R : α → Cursor → Prop} (gets : Gets p c Q) (weaker : ∀ a c', Q a c' → R a c') : Gets p c R := by
  obtain ⟨a, c', read, holds⟩ := gets
  exact ⟨a, c', read, weaker a c' holds⟩

theorem here {f : Pos → Parse β} (next : Gets (f c.pos) c R) : Gets (here >>= f) c R := next

theorem peek {f : Option TokenKind → Parse β} (ahead : Ahead line kinds c)
    (next : Gets (f kinds.head?) c R) : Gets (peek >>= f) c R := by
  rw [← ahead.kind_eq] at next
  exact next

theorem check {f : Bool → Parse β} (ahead : Ahead line kinds c)
    (next : Gets (f (decide (kinds.head? = some kind))) c R) : Gets (check kind >>= f) c R := by
  rw [← ahead.kind_eq] at next
  exact next

theorem skip {f : Unit → Parse β} (ahead : Ahead line (kind :: rest) c)
    (next : ∀ c', Midway line rest c' → Gets (f ()) c' R) : Gets (skip >>= f) c R :=
  next c.advance ahead.cons.2.2

theorem accept {f : Bool → Parse β} (ahead : Ahead line (kind :: rest) c)
    (next : ∀ c', Midway line rest c' → Gets (f true) c' R) : Gets (accept kind >>= f) c R := by
  refine bind (Q := fun b c' => b = true ∧ Midway line rest c') ?_ fun b c' ⟨yes, midway⟩ => ?_
  · refine ⟨true, c.advance, ?_, rfl, ahead.cons.2.2⟩
    rw [Parser.accept, if_pos ahead.cons.1]
  · rw [yes]
    exact next c' midway

theorem decline {f : Bool → Parse β} (ahead : Ahead line kinds c) (other : kinds.head? ≠ some kind)
    (next : Gets (f false) c R) : Gets (Parser.accept kind >>= f) c R := by
  refine bind (Q := fun b c' => b = false ∧ c' = c) ⟨false, c, ?_, rfl, rfl⟩ fun b c' ⟨no, same⟩ => ?_
  · rw [Parser.accept, ahead.kind_eq, if_neg other]
  · rw [no, same]
    exact next

theorem expect {f : Unit → Parse β} (ahead : Ahead line (kind :: rest) c)
    (next : ∀ c', Midway line rest c' → Gets (f ()) c' R) : Gets (expect kind >>= f) c R := by
  refine bind (Q := fun _ => Midway line rest) ⟨(), c.advance, ?_, ahead.cons.2.2⟩ fun _ => next
  rw [Parser.expect, if_pos ahead.cons.1]

theorem identifier {f : String → Parse β} {name : String} (ahead : Ahead line (.ident name :: rest) c)
    (next : ∀ c', Midway line rest c' → Gets (f name) c' R) : Gets (identifier >>= f) c R := by
  refine bind (Q := fun a c' => a = name ∧ Midway line rest c') ?_ fun a c' ⟨same, midway⟩ => ?_
  · refine ⟨name, c.advance, ?_, rfl, ahead.cons.2.2⟩
    rw [Parser.identifier, ahead.cons.1]
  · rw [same]
    exact next c' midway

/-- An opening bracket on the line of the token before it. -/
theorem isIndex {f : Bool → Parse β} (midway : Midway line (sym .lbracket :: rest) c)
    (next : Gets (f true) c R) : Gets (indexFollows >>= f) c R := by
  have follows : decide (c.kind = some (sym .lbracket) ∧ c.pos.line = c.lastLine) = true :=
    decide_eq_true ⟨midway.cons.1, midway.cons.2.1.trans midway.last.symm⟩
  rw [← follows] at next
  exact next

theorem noIndex {f : Bool → Parse β} (ahead : Ahead line kinds c)
    (other : kinds.head? ≠ some (sym .lbracket)) (next : Gets (f false) c R) : Gets (indexFollows >>= f) c R := by
  have ends : decide (c.kind = some (sym .lbracket) ∧ c.pos.line = c.lastLine) = false := by
    rw [ahead.kind_eq, decide_eq_false_iff_not]
    exact fun both => other both.1
  rw [← ends] at next
  exact next

theorem skipSemicolons {f : Unit → Parse β} {n : Nat}
    (midway : Midway line (List.replicate n (sym .semicolon) ++ rest) c)
    (other : rest.head? ≠ some (sym .semicolon)) (next : ∀ c', Midway line rest c' → Gets (f ()) c' R) :
    Gets (skipSemicolons >>= f) c R := by
  refine next _ ⟨⟨?_, fun t mem => ?_⟩, ?_⟩
  · have dropped : (List.replicate n (sym .semicolon) ++ rest).dropWhile (· = sym .semicolon) = rest := by
      rw [List.dropWhile_append_of_pos (by simp)]
      cases rest with
      | nil => rfl
      | cons kind rest => exact List.dropWhile_cons_of_neg (by simpa using other)
    rw [← dropped, ← midway.kindsEq, List.dropWhile_map]
    rfl
  · exact midway.onLine t ((List.dropWhile_sublist _).mem mem)
  · cases last : (c.ahead.takeWhile (·.kind = sym .semicolon)).getLast? with
    | none => exact midway.last
    | some t =>
      exact midway.onLine t ((List.takeWhile_sublist _).mem (List.mem_of_getLast? last))

end Gets

/-- A parser reads kinds, whatever comes behind them that is fit to follow. -/
def Yields (line : Nat) (p : Parse α) (kinds : List TokenKind) (follow : Option TokenKind → Prop)
    (S : α → Prop) : Prop :=
  ∀ c rest, Ahead line (kinds ++ rest) c → follow rest.head? →
    Gets p c fun a c' => S a ∧ Midway line rest c'

/-- The same for a parser that may have nothing to read. -/
def YieldsMidway (line : Nat) (p : Parse α) (kinds : List TokenKind) (follow : Option TokenKind → Prop)
    (S : α → Prop) : Prop :=
  ∀ c rest, Midway line (kinds ++ rest) c → follow rest.head? →
    Gets p c fun a c' => S a ∧ Midway line rest c'

end Sketch.Parser
