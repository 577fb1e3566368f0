import Mathlib.Data.List.Forall2
import Sketch.Proofs.Syntax.Phrases

/-!
The top level. A round ends at a later place than it started, and finds at most one mistake, at a place between the
two. So the rounds come to an end, and their mistakes are in order.
-/

namespace Sketch.IndexParser

open Sketch.Parser (Round)

variable {s : TokenStream} {i : Nat}

/-- A mistake sits at the entry with a certain index. -/
def SitsAt (s : TokenStream) (d : Diagnostic) (k : Nat) : Prop := ∃ m, s.marks[k]? = some m ∧ m.pos = d.pos

variable {j : Nat} {hadMistake : Bool}

theorem leave_eq (within : i < s.tokens.length) : leave s i ⟨j, 0, 0⟩ = some (.ok (), ⟨nextStart i j, 0, 0⟩) := by
  change (if j = i then skip s else pure ()) _ = _
  rw [nextStart]
  by_cases stays : j = i
  · rw [if_pos stays, if_pos stays, stays, skip_eq within]
  · rw [if_neg stays, if_neg stays]
    rfl

theorem rounds_step {r : Round} (within : i < s.tokens.length)
    (books : round s hadMistake ⟨i, 0, 0⟩ = some (.ok r, ⟨j, 0, 0⟩)) : rounds s hadMistake ⟨i, 0, 0⟩ =
      (do
        let rest ← rounds s (hadMistake || (mistake? r).isSome)
        pure (Entry.mk ⟨i, 0, 0⟩ r :: rest)) ⟨nextStart i j, 0, 0⟩ := by
  have more : (s.cursor i).kind ≠ none := by
    rw [TokenStream.cursor_kind, List.getElem?_eq_getElem within]
    exact Option.some_ne_none _
  rw [rounds, bind_of_ok (peek_eq (Nat.le_of_lt within)), if_neg more]
  change (round s hadMistake >>= _) _ = _
  rw [bind_of_ok books, bind_of_ok (leave_eq within)]

theorem rounds_end : rounds s hadMistake ⟨s.tokens.length, 0, 0⟩ = some (.ok [], ⟨s.tokens.length, 0, 0⟩) := by
  rw [rounds, bind_of_ok (peek_eq (Nat.le_refl _)), TokenStream.cursor_kind_end (Nat.le_refl _), if_pos rfl]
  rfl

/-- Rounds in order from a place on: each starts with empty counts, and its mistake sits in front of the next one. -/
inductive Orderly (s : TokenStream) : Nat → List Entry → Prop where
  | nil {i : Nat} : Orderly s i []
  | cons {i j : Nat} {r : Round} {log : List Entry} (onward : i < j) (inside : j ≤ s.tokens.length)
      (place : ∀ d, r = .mistake d → ∃ k, i ≤ k ∧ k ≤ j ∧ SitsAt s d k)
      (rest : Orderly s j log) : Orderly s i (⟨⟨i, 0, 0⟩, r⟩ :: log)

/-- Both parsers make the same rounds, and these are in order. -/
theorem rounds_same {fuel : List Token} (hadMistake : Bool) (inside : i ≤ s.tokens.length)
    (enough : s.tokens.length - i ≤ fuel.length) :
    ∃ log, Orderly s i log ∧ Parser.rounds fuel hadMistake (s.cursor i) = (itemsOf log, mistakesOf log) ∧
      rounds s hadMistake ⟨i, 0, 0⟩ = some (.ok log, ⟨s.tokens.length, 0, 0⟩) := by
  induction fuel generalizing i hadMistake with
  | nil =>
    obtain rfl : i = s.tokens.length := Nat.le_antisymm inside (Nat.le_of_sub_eq_zero (Nat.le_zero.mp enough))
    exact ⟨[], .nil, rfl, rounds_end⟩
  | cons t fuel ih =>
    rcases Nat.lt_or_eq_of_le inside with within | rfl
    · obtain ⟨r, j, inside', tries, did, -, noted⟩ := round_comes .still hadMistake within
      have onward := lt_nextStart tries.forward
      have behind := nextStart_le within inside'
      have left : s.tokens.length - nextStart i j ≤ fuel.length := by
        rw [List.length_cons] at enough
        omega
      obtain ⟨log, orderly, read, books⟩ := ih (hadMistake || (mistake? r).isSome) behind left
      refine ⟨⟨⟨i, 0, 0⟩, r⟩ :: log, .cons onward behind ?_ orderly, ?_, ?_⟩
      · rintro d rfl
        obtain ⟨k, first, last, place⟩ := tries.place
        exact ⟨k, first, Nat.le_trans last le_nextStart, _, TokenStream.marks_getElem? (Nat.le_trans last inside'),
          place⟩
      · rw [rounds_cons within inside' did, read]
        cases r <;> rfl
      · rw [rounds_step within noted, bind_of_ok books]
        rfl
    · refine ⟨[], .nil, ?_, rounds_end⟩
      rw [Parser.rounds, TokenStream.cursor, List.drop_length]
      rfl

namespace Orderly

variable {log : List Entry}

theorem books_eq (orderly : Orderly s i log) {entry : Entry} (met : entry ∈ log) :
    ∃ j, i ≤ j ∧ j < s.tokens.length ∧ entry.books = ⟨j, 0, 0⟩ := by
  induction orderly with
  | nil => cases met
  | cons onward inside _ _ ih =>
    rcases List.mem_cons.mp met with rfl | met
    · exact ⟨_, Nat.le_refl _, Nat.lt_of_lt_of_le onward inside, rfl⟩
    · obtain ⟨j, behind, within, same⟩ := ih met
      exact ⟨j, Nat.le_trans (Nat.le_of_lt onward) behind, within, same⟩

/-- Each round starts behind the start of the one before. -/
theorem starts_in_order (orderly : Orderly s i log) :
    log.Pairwise fun entry later => entry.books.index < later.books.index := by
  induction orderly with
  | nil => exact .nil
  | cons onward _ _ rest ih =>
    refine .cons (fun later met => ?_) ih
    obtain ⟨j, behind, -, same⟩ := rest.books_eq met
    rw [same]
    exact Nat.lt_of_lt_of_le onward behind

/-- No more rounds than tokens. -/
theorem length_le (orderly : Orderly s i log) (inside : i ≤ s.tokens.length) : i + log.length ≤ s.tokens.length := by
  induction orderly with
  | nil => exact inside
  | cons onward inside' _ _ ih =>
    have rest := ih inside'
    rw [List.length_cons]
    omega

/-- The mistakes of rounds sit at places in order. -/
theorem mistakes_in_order (orderly : Orderly s i log) :
    ∃ places : List Nat, (∀ k ∈ places, i ≤ k) ∧ places.Pairwise (· ≤ ·) ∧
      List.Forall₂ (SitsAt s) (mistakesOf log) places := by
  induction orderly with
  | nil => exact ⟨[], fun _ absurd => (List.not_mem_nil absurd).elim, .nil, .nil⟩
  | @cons i j r log onward inside place rest ih =>
    obtain ⟨places, behind, ordered, found⟩ := ih
    cases r with
    | mistake d =>
      obtain ⟨k, first, before, sits⟩ := place d rfl
      refine ⟨k :: places, ?_, ?_, .cons sits found⟩
      · intro k' met
        rcases List.mem_cons.mp met with rfl | met
        · exact first
        · exact Nat.le_trans (Nat.le_of_lt onward) (behind k' met)
      · exact .cons (fun k' met => Nat.le_trans before (behind k' met)) ordered
    | item | nothing =>
      exact ⟨places, fun k' met => Nat.le_trans (Nat.le_of_lt onward) (behind k' met), ordered, found⟩

end Orderly

/-- The parser is total and recovers in order, on every list of tokens with the end as its last entry. With books of
    its own it comes to an end, at the end of the list, without looking behind it, and gives the same answer. Each
    round starts at a token of its own, with no level and no function entered, whatever mistakes came before. As a
    round meets one mistake at most, there are at most as many mistakes as tokens; each sits at the place of an entry,
    and they are in the order of the entries. -/
theorem parse_recovers_in_order (s : TokenStream) :
    ∃ log, run s = some (.ok log, ⟨s.tokens.length, 0, 0⟩) ∧ Parser.parse s = answer log ∧
      (∀ entry ∈ log, entry.books.index < s.tokens.length ∧ entry.books.nesting = 0 ∧ entry.books.functions = 0) ∧
      (log.Pairwise fun entry later => entry.books.index < later.books.index) ∧
      ∀ mistakes, Parser.parse s = .error mistakes → mistakes.length ≤ s.tokens.length ∧
        ∃ places : List Nat, places.Pairwise (· ≤ ·) ∧ List.Forall₂ (SitsAt s) mistakes places := by
  obtain ⟨log, orderly, read, books⟩ := rounds_same false (Nat.zero_le s.tokens.length) (Nat.le_refl _)
  have answers : Parser.parse s = answer log := by
    rw [Parser.parse, ← TokenStream.cursor_zero, read]
    rfl
  refine ⟨log, books, answers, fun entry met => ?_, orderly.starts_in_order, fun mistakes failed => ?_⟩
  · obtain ⟨j, -, within, same⟩ := orderly.books_eq met
    rw [same]
    exact ⟨within, rfl, rfl⟩
  · obtain rfl : mistakesOf log = mistakes := by
      rw [answers, answer] at failed
      by_cases clean : (mistakesOf log).isEmpty
      · rw [if_pos clean] at failed
        cases failed
      · rw [if_neg clean] at failed
        exact Except.error.inj failed
    have rounds := orderly.length_le (Nat.zero_le _)
    obtain ⟨places, -, ordered, found⟩ := orderly.mistakes_in_order
    exact ⟨Nat.le_trans (List.length_filterMap_le ..) (by omega), places, ordered, found⟩

/-- The tokens `f(return`. -/
def brokenOff : TokenStream :=
  ⟨[⟨.ident "f", ⟨1, 1⟩⟩, ⟨.punct .lparen, ⟨1, 2⟩⟩, ⟨.keyword .returnKw, ⟨1, 3⟩⟩], ⟨1, 9⟩⟩

/-- One token can be the place of two mistakes: a round stops in front of it, and the next one starts there. -/
theorem brokenOff_recovers :
    ∃ mistakes, Parser.parse brokenOff = .error mistakes ∧ mistakes.map (·.pos) = [⟨1, 3⟩, ⟨1, 3⟩] ∧
      mistakes.length ≤ brokenOff.tokens.length ∧
      ∃ places : List Nat, places.Pairwise (· ≤ ·) ∧ List.Forall₂ (SitsAt brokenOff) mistakes places := by
  obtain ⟨-, -, -, -, -, met⟩ := parse_recovers_in_order brokenOff
  exact ⟨_, rfl, rfl, met _ rfl⟩

end Sketch.IndexParser
