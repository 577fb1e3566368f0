import Sketch.Syntax.Parser

/-!
Places in a list of tokens. The cursor of the parser stands in front of one of them or at the end, so that an index
says all about it.
-/

namespace Sketch

open Sketch.Parser (Cursor)

namespace TokenStream

variable (s : TokenStream) {i : Nat}

/-- The cursor in front of the token at an index. -/
def cursor (i : Nat) : Cursor where
  ahead := s.tokens.drop i
  stop := s.stop
  lastLine := ((s.tokens.take i).getLast?.map (·.pos.line)).getD 0

theorem cursor_zero : s.cursor 0 = .ofStream s := rfl

variable {s}

theorem cursor_kind : (s.cursor i).kind = s.tokens[i]?.map (·.kind) := by
  rw [Cursor.kind, cursor, List.head?_drop]

/-- The kind in front of a cursor depends on the kinds of the tokens. -/
theorem cursor_kind_congr {s' : TokenStream} (same : s'.tokens.map (·.kind) = s.tokens.map (·.kind)) (i : Nat) :
    (s'.cursor i).kind = (s.cursor i).kind := by
  rw [cursor_kind, cursor_kind, ← List.getElem?_map, same, List.getElem?_map]

theorem cursor_pos : (s.cursor i).pos = (s.tokens[i]?.map (·.pos)).getD s.stop := by
  rw [Cursor.pos, cursor, List.head?_drop]

theorem lt_of_cursor_kind {kind : TokenKind} (found : (s.cursor i).kind = some kind) : i < s.tokens.length := by
  rw [cursor_kind, Option.map_eq_some_iff] at found
  obtain ⟨t, present, -⟩ := found
  exact (List.getElem?_eq_some_iff.mp present).1

theorem cursor_kind_end (ended : s.tokens.length ≤ i) : (s.cursor i).kind = none := by
  rw [cursor_kind, List.getElem?_eq_none ended]
  rfl

theorem take_succ (inside : i < s.tokens.length) : s.tokens.take (i + 1) = s.tokens.take i ++ [s.tokens[i]] := by
  rw [List.take_add_one, List.getElem?_eq_getElem inside]
  rfl

theorem cursor_advance (inside : i < s.tokens.length) : (s.cursor i).advance = s.cursor (i + 1) := by
  rw [Cursor.advance, cursor, List.drop_eq_getElem_cons inside, cursor, take_succ inside, List.getLast?_concat]
  rfl

theorem cursor_advance_end (ended : s.tokens.length ≤ i) : (s.cursor i).advance = s.cursor i := by
  rw [Cursor.advance, cursor, List.drop_eq_nil_of_le ended]

theorem cursor_lastLine (inside : i < s.tokens.length) : (s.cursor (i + 1)).lastLine = (s.cursor i).pos.line := by
  rw [cursor_pos, cursor, take_succ inside, List.getLast?_concat, List.getElem?_eq_getElem inside]
  rfl

theorem cursor_inj {j : Nat} (inside : i ≤ s.tokens.length) (inside' : j ≤ s.tokens.length)
    (same : s.cursor i = s.cursor j) : i = j := by
  have left : s.tokens.length - i = s.tokens.length - j := by
    rw [← List.length_drop, ← List.length_drop]
    exact congrArg (fun c => c.ahead.length) same
  omega

end TokenStream

namespace Parser.Cursor

variable {c : Cursor} {kinds : TokenKind → Bool}

/-- The cursor behind the tokens of some kinds that come next. -/
def pass (kinds : TokenKind → Bool) (c : Cursor) : Cursor where
  ahead := c.ahead.dropWhile (kinds ·.kind)
  stop := c.stop
  lastLine := ((c.ahead.takeWhile (kinds ·.kind)).getLast?.map (·.pos.line)).getD c.lastLine

theorem pass_of_true (more : c.kind.any kinds = true) : c.pass kinds = c.advance.pass kinds := by
  rcases c with ⟨_ | ⟨t, rest⟩, stop, lastLine⟩
  · cases more
  have more : kinds t.kind = true := more
  simp only [pass, advance, List.dropWhile_cons, List.takeWhile_cons, more, if_true, List.getLast?_cons]
  cases (rest.takeWhile (kinds ·.kind)).getLast? <;> rfl

theorem pass_of_false (ended : c.kind.any kinds = false) : c.pass kinds = c := by
  rcases c with ⟨_ | ⟨t, rest⟩, stop, lastLine⟩
  · rfl
  have ended : kinds t.kind = false := ended
  simp only [pass, List.dropWhile_cons, List.takeWhile_cons, ended, Bool.false_eq_true, if_false]
  rfl

end Parser.Cursor

namespace TokenStream

variable {s : TokenStream}

/-- No token from `i` up to `j` is of some kinds. -/
def Avoids (s : TokenStream) (i : Nat) (kinds : TokenKind → Bool) (j : Nat) : Prop :=
  ∀ k < j, i ≤ k → (s.cursor k).kind.any kinds = false

variable {i j k : Nat} {kind : TokenKind} {kinds : TokenKind → Bool}

theorem Avoids.nil : s.Avoids i kinds i := fun k before behind => by omega

theorem Avoids.cons (found : (s.cursor i).kind = some kind) (other : kinds kind = false)
    (rest : s.Avoids (i + 1) kinds j) : s.Avoids i kinds j := by
  intro k before behind
  rcases Nat.eq_or_lt_of_le behind with rfl | behind
  · rw [found]
    exact other
  · exact rest k before behind

theorem Avoids.append (first : s.Avoids i kinds j) (second : s.Avoids j kinds k) : s.Avoids i kinds k := by
  intro l before behind
  rcases Nat.lt_or_ge l j with front | back
  · exact first l front behind
  · exact second l before back

end TokenStream

end Sketch
