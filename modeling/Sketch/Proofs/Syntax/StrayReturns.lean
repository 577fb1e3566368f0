import Sketch.Proofs.Syntax.Balance
import Sketch.Proofs.Syntax.Shorthand

/-!
Misplaced returns that recovery invents. Behind a mistake in a function the parser starts again and does not know that
it is still in the function.
-/

namespace Sketch

open Sketch.Parser (Cursor Round Declaration ParameterList sym kw)

/-- A function with its body in braces, among the tokens. The brackets of the body are balanced. -/
structure Enclosure (s : TokenStream) where
  before : List Token
  declaration : Declaration
  after : List Token
  whole : s.tokens = before ++ (declaration.full.tokens ++ after)
  closed : Balanced declaration.body

namespace Enclosure

variable {s : TokenStream} (f : Enclosure s)

/-- The index of the keyword. -/
def start : Nat := f.before.length

/-- The index of the parenthesis behind the parameters. -/
def header : Nat := f.start + 3 + f.declaration.params.length

/-- The index of the brace in front of the body. -/
def opening : Nat := f.header + 1

/-- The index of the brace behind the body. -/
def closing : Nat := f.opening + 1 + f.declaration.body.length

theorem starts : (s.cursor f.start).kind = some (kw .functionKw) := by
  rw [TokenStream.cursor_kind, f.whole, start, List.getElem?_append_right (Nat.le_refl _), Nat.sub_self]
  rfl

theorem drop_eq : s.tokens.drop (f.start + 3) = f.declaration.inside ++ f.after := by
  rw [f.whole, start, List.drop_length_add_append]
  rfl

/-- The tokens behind the opening parenthesis. -/
theorem kind_inside (n : Nat) :
    (s.cursor (f.start + 3 + n)).kind = (f.declaration.inside ++ f.after)[n]?.map (·.kind) := by
  rw [← f.drop_eq, List.getElem?_drop, TokenStream.cursor_kind]

theorem header_closes : (s.cursor f.header).kind = some (sym .rparen) := by
  rw [header, kind_inside, Declaration.inside, List.append_assoc, List.getElem?_append_right (Nat.le_refl _),
    Nat.sub_self]
  rfl

theorem opens : (s.cursor f.opening).kind = some (sym .lbrace) := by
  rw [opening, header, Nat.add_assoc, kind_inside, Declaration.inside, List.append_assoc,
    List.getElem?_append_right (Nat.le_add_right _ 1), Nat.add_sub_cancel_left]
  rfl

/-- No parenthesis is closed among the parameters. -/
theorem params_avoid : s.Avoids (f.start + 3) (· = sym .rparen) f.header := by
  have others {ps : List Token} (listed : ParameterList ps) : ∀ t ∈ ps, decide (t.kind = sym .rparen) = false := by
    induction listed with
    | nil => exact List.forall_mem_nil _
    | last => exact List.forall_mem_singleton.mpr rfl
    | cons _ ih => exact List.forall_mem_cons.mpr ⟨rfl, List.forall_mem_cons.mpr ⟨rfl, ih⟩⟩
  intro k before behind
  obtain ⟨n, rfl⟩ := Nat.exists_eq_add_of_le behind
  have within : n < f.declaration.params.length := Nat.lt_of_add_lt_add_left before
  rw [kind_inside, Declaration.inside, List.append_assoc, List.getElem?_append_left within,
    List.getElem?_eq_getElem within]
  exact others f.declaration.listed _ (List.getElem_mem within)

theorem body_level : Level s (f.opening + 1) f.closing := by
  refine ⟨Nat.le_add_right _ _, ?_⟩
  have drop : s.tokens.drop (f.opening + 1) =
      f.declaration.body ++ ([⟨sym .rbrace, f.declaration.ends⟩] ++ f.after) := by
    rw [opening, header, Nat.add_assoc, Nat.add_assoc, ← List.drop_drop, f.drop_eq, Declaration.inside,
      List.append_assoc, List.drop_length_add_append]
    exact List.append_assoc _ _ _
  rw [TokenStream.between, drop, closing, Nat.add_sub_cancel_left, List.take_left]
  exact f.closed

/-- What is read as the head of a function goes up to the brace. -/
theorem behind_head {name : String} {params : List Param} {body : List Phrase} {j : Nat} (present : Bool)
    (yields : Yields s (Phrase.perhaps present (kw .functionKw) ++ .token (.ident name) :: .token (sym .lparen) ::
      .params params :: .token (sym .rparen) :: body) f.start j) : Yields s body f.opening j := by
  cases present with
  | false => cases f.starts.symm.trans yields.token_inv.1
  | true =>
    obtain ⟨k, forward, avoids, rest⟩ := yields.token_inv.2.token_inv.2.token_inv.2.behindParams
    obtain ⟨closes, rest⟩ := rest.token_inv
    rcases Nat.lt_trichotomy k f.header with before | rfl | behind
    · have other := f.params_avoid k before forward
      simp [closes] at other
    · exact rest
    · have other := avoids f.header behind (Nat.le_add_right _ _)
      simp [f.header_closes] at other

/-- What is read as this function ends behind its body. -/
theorem closing_lt {fn : FnDef} {j : Nat} (yields : Yields s [.item (.function fn)] f.start j) : f.closing < j := by
  obtain ⟨body, rest, solid, balanced⟩ : ∃ body, Yields s body f.opening j ∧ (∃ q ∈ body, q.isSolid = true) ∧
      Phrase.settle body [] = some [] := by
    cases yields with
    | phrase rule inner nothing =>
      cases nothing
      cases rule with
      | bracedFunction present => exact ⟨_, f.behind_head present inner, by simp [Phrase.isSolid], rfl⟩
      | keywordFunction present => exact ⟨_, f.behind_head present inner, by simp [Phrase.isSolid], rfl⟩
  have level : Level s f.opening j := ⟨rest.le, rest.settle.trans balanced⟩
  exact level.lt_of_opener rfl f.opens (rest.lt solid) f.body_level

def Holds (k : Nat) : Prop := f.opening < k ∧ k < f.closing

/-- A mistake that is no stray `return` sits between the keyword and a place. -/
def Blames (i : Nat) (d : Diagnostic) : Prop :=
  d.fault ≠ .strayReturn ∧ ∃ m, f.start ≤ m ∧ m ≤ i ∧ (s.cursor m).pos = d.pos

theorem Blames.mono {f : Enclosure s} {i j : Nat} {d : Diagnostic} (blames : f.Blames i d) (further : i ≤ j) :
    f.Blames j d := by
  obtain ⟨other, m, behind, before, place⟩ := blames
  exact ⟨other, m, behind, Nat.le_trans before further, place⟩

/-- What keeps clear of the keywords of functions does not get behind this one. -/
theorem le_start {i j : Nat} (free : FunctionFree s i j) (before : i ≤ f.start) : j ≤ f.start := by
  by_contra behind
  have none := free.avoids f.start (Nat.lt_of_not_le behind) before
  rw [f.starts] at none
  cases none

/-- Nor does recovery from a mistake in front of it. -/
theorem recover_le_start {i j : Nat} (before : i ≤ f.start) (recovers : IndexParser.Recovers s i j) : j ≤ f.start := by
  by_contra behind
  have none := recovers.avoids f.start (Nat.lt_of_not_le behind) before
  rw [f.starts] at none
  cases none

variable {hadMistake : Bool} {i j : Nat} {r : Round}

/-- A round in front of the keyword does not get behind it, unless it wants a name there. -/
theorem crosses_before (tries : Tries s hadMistake i r j) (before : i < f.start) :
    j ≤ f.start ∨ ∃ d, r = .mistake d ∧ f.Blames f.start d := by
  have entry : s.entry i ≤ f.start := by
    rw [TokenStream.entry]
    split <;> omega
  cases tries with
  | nothing => exact .inl before
  | item free => exact .inl (f.le_start free entry)
  | mistake free _ _ _ _ recovers => exact .inl (f.recover_le_start (f.le_start free entry) recovers)
  | @swallowed d k _ free other place recovers =>
    rcases Nat.lt_or_eq_of_le (f.le_start free entry) with front | rfl
    · exact .inl (f.recover_le_start front recovers)
    · exact .inr ⟨d, rfl, other, _, Nat.le_refl _, Nat.le_refl _, place⟩

/-- A round that starts at the keyword gets behind the body, or finds a mistake. -/
theorem crosses_at (tries : Tries s hadMistake f.start r j) : f.closing < j ∨ ∃ d, r = .mistake d ∧ f.Blames j d := by
  have moved : s.entry f.start ≠ f.start := by simp [TokenStream.entry, f.starts, TokenKind.isFunction]
  have blames {d : Diagnostic} (tries : Tries s hadMistake f.start (.mistake d) j) (other : d.fault ≠ .strayReturn) :
      ∃ d', Round.mistake d = .mistake d' ∧ f.Blames j d' := ⟨d, rfl, other, tries.place⟩
  cases tries with
  | nothing found plain =>
    cases found.symm.trans f.starts
    cases plain
  | item free yields declared =>
    obtain ⟨fn, rfl⟩ := declared moved
    exact .inl (f.closing_lt yields)
  | mistake free behind before place stray recovers =>
    exact .inr (blames (.mistake free behind before place stray recovers) fun isStray => moved (stray isStray).1)
  | swallowed free other place recovers => exact .inr (blames (.swallowed free other place recovers) other)

/-- So it is with every round that gets behind the keyword. -/
theorem crosses (tries : Tries s hadMistake i r j) (before : i ≤ f.start)
    (behind : f.start < IndexParser.nextStart i j) :
    f.closing < IndexParser.nextStart i j ∨ ∃ d, r = .mistake d ∧ f.Blames (IndexParser.nextStart i j) d := by
  rcases Nat.lt_or_eq_of_le before with front | rfl
  · rcases f.crosses_before tries front with short | ⟨d, isMistake, blames⟩
    · rw [IndexParser.nextStart] at behind
      split at behind <;> omega
    · exact .inr ⟨d, isMistake, blames.mono (Nat.le_of_lt behind)⟩
  · rcases f.crosses_at tries with past | ⟨d, isMistake, blames⟩
    · exact .inl (Nat.lt_of_lt_of_le past IndexParser.le_nextStart)
    · exact .inr ⟨d, isMistake, blames.mono IndexParser.le_nextStart⟩

end Enclosure

variable {s : TokenStream} {hadMistake : Bool} {i : Nat}

/-- Every function that is entered is left again, or there was a mistake in it. -/
def Accounted (s : TokenStream) (i : Nat) (earlier : List Diagnostic) : Prop :=
  ∀ f : Enclosure s, f.start < i → f.closing < i ∨ ∃ d ∈ earlier, f.Blames i d

/-- A round keeps it so. -/
theorem Accounted.step {earlier : List Diagnostic} (accounted : Accounted s i earlier) {r : Round} {j : Nat}
    (tries : Tries s hadMistake i r j) :
    Accounted s (IndexParser.nextStart i j) (earlier ++ (IndexParser.mistake? r).toList) := by
  have onward := Nat.le_of_lt (IndexParser.lt_nextStart tries.forward)
  intro f entered
  rcases Nat.lt_or_ge f.start i with earlier | now
  · rcases accounted f earlier with left | ⟨d, mem, blames⟩
    · exact .inl (Nat.lt_of_lt_of_le left onward)
    · exact .inr ⟨d, List.mem_append_left _ mem, blames.mono onward⟩
  · rcases f.crosses tries now entered with left | ⟨d, rfl, blames⟩
    · exact .inl left
    · exact .inr ⟨d, List.mem_append_right _ (List.mem_singleton_self d), blames⟩

/-- A stray `return` stands in a function, and an earlier mistake explains it. -/
def Explained (s : TokenStream) (d : Diagnostic) (earlier : List Diagnostic) : Prop :=
  ∃ (f : Enclosure s) (k : Nat), f.Holds k ∧ (s.cursor k).kind = some (kw .returnKw) ∧ (s.cursor k).pos = d.pos ∧
    ∃ d' ∈ earlier, f.Blames k d'

section Strays

variable (enclosed : ∀ k, (s.cursor k).kind = some (kw .returnKw) → ∃ f : Enclosure s, f.Holds k)

include enclosed

/-- A stray `return` of one round is explained. -/
theorem Accounted.explained {earlier : List Diagnostic} (accounted : Accounted s i earlier)
    {d : Diagnostic} {j : Nat} (tries : Tries s hadMistake i (.mistake d) j) (stray : d.fault = .strayReturn) :
    Explained s d earlier := by
  cases tries with
  | @mistake _ k _ _ free _ _ _ found =>
    obtain ⟨entry, isReturn, place⟩ := found stray
    rw [entry] at free
    obtain ⟨f, holds⟩ := enclosed k isReturn
    -- the function was entered before, since the round steps over no keyword of a function
    have entered : f.start < i := by
      by_contra later
      have short := f.le_start free (Nat.le_of_not_lt later)
      have inside : f.start < f.opening := by
        rw [Enclosure.opening, Enclosure.header]
        omega
      exact Nat.lt_irrefl _ (Nat.lt_of_le_of_lt short (Nat.lt_trans inside holds.1))
    rcases accounted f entered with left | ⟨d', mem, blames⟩
    · exact absurd (Nat.lt_of_lt_of_le left free.forward) (Nat.not_lt_of_lt holds.2)
    · exact ⟨f, k, holds, isReturn, place, d', mem, blames.mono free.forward⟩
  | swallowed _ other => exact absurd stray other

/-- Along all rounds, a stray `return` has an earlier mistake that explains it. -/
theorem rounds_explained {fuel : List Token} {earlier first rest : List Diagnostic} {d : Diagnostic}
    (inside : i ≤ s.tokens.length) (accounted : Accounted s i earlier)
    (mistakes : (Parser.rounds fuel hadMistake (s.cursor i)).2 = first ++ d :: rest) (stray : d.fault = .strayReturn) :
    Explained s d (earlier ++ first) := by
  induction fuel generalizing i hadMistake earlier first with
  | nil => cases first <;> cases mistakes
  | cons t fuel ih =>
    rcases Nat.lt_or_eq_of_le inside with within | rfl
    · obtain ⟨r, j, inside', tries, did, -, -⟩ := round_comes .still hadMistake within
      have next := accounted.step tries
      have behind := IndexParser.nextStart_le within inside'
      rw [IndexParser.rounds_cons within inside' did] at mistakes
      cases r with
      | item | nothing =>
        rw [IndexParser.mistake?, Option.toList_none, List.append_nil] at next
        exact ih behind next mistakes
      | mistake d₀ =>
        cases first with
        | nil =>
          obtain rfl := (List.cons.inj mistakes).1
          rw [List.append_nil]
          exact accounted.explained enclosed tries stray
        | cons d₁ first =>
          obtain ⟨rfl, others⟩ := List.cons.inj mistakes
          have explained := ih behind next others
          rwa [IndexParser.mistake?, Option.toList_some, List.append_assoc] at explained
    · rw [Parser.rounds, TokenStream.cursor, List.drop_length] at mistakes
      cases first <;> cases mistakes

/-- If every `return` stands in a function, then one that is called misplaced comes after an earlier mistake of another
    kind, which sits in the same function in front of it. -/
theorem stray_returns_follow_mistakes {first rest : List Diagnostic} {d : Diagnostic}
    (failed : Parser.parse s = .error (first ++ d :: rest)) (stray : d.fault = .strayReturn) :
    Explained s d first := by
  have mistakes : (Parser.rounds s.tokens false (s.cursor 0)).2 = first ++ d :: rest := by
    rw [Parser.parse, ← TokenStream.cursor_zero] at failed
    cases done : Parser.rounds s.tokens false (s.cursor 0) with
    | mk items mistakes =>
      rw [done] at failed
      cases mistakes with
      | nil => cases failed
      | cons => exact Except.error.inj failed
  have accounted : Accounted s 0 [] := fun f entered => absurd entered (Nat.not_lt_zero _)
  exact rounds_explained enclosed (Nat.zero_le _) accounted mistakes stray

end Strays

/-- The function `function f() { x = = 1 return 2 }`. -/
def stumble : Declaration where
  keyword := ⟨1, 1⟩
  name := "f"
  place := ⟨1, 10⟩
  opens := ⟨1, 11⟩
  params := []
  listed := .nil
  closes := ⟨1, 12⟩
  begins := ⟨1, 14⟩
  body := [⟨.ident "x", ⟨1, 16⟩⟩, ⟨sym .eq, ⟨1, 18⟩⟩, ⟨sym .eq, ⟨1, 20⟩⟩, ⟨.number 1, ⟨1, 22⟩⟩,
    ⟨kw .returnKw, ⟨1, 24⟩⟩, ⟨.number 2, ⟨1, 31⟩⟩]
  ends := ⟨1, 33⟩
  stop := ⟨1, 34⟩

def stumbleEnclosure : Enclosure stumble.full := ⟨[], stumble, [], (List.append_nil _).symm, rfl⟩

/-- Its only `return` stands in it. -/
theorem stumble_holds {k : Nat} (found : (stumble.full.cursor k).kind = some (kw .returnKw)) :
    stumbleEnclosure.Holds k := by
  have only : ∀ k < 12, (stumble.full.cursor k).kind = some (kw .returnKw) → 5 ≤ k ∧ k < 11 := by decide
  exact only k (TokenStream.lt_of_cursor_kind found) found

/-- What is wrong in it: there is no expression in front of the second sign. -/
def stumbleMistake : Diagnostic := ⟨.unexpectedToken .expression (some (sym .eq)), ⟨1, 20⟩⟩

theorem stumble_strays : Parser.parse stumble.full = .error [stumbleMistake, ⟨.strayReturn, ⟨1, 24⟩⟩] ∧
    Explained stumble.full ⟨.strayReturn, ⟨1, 24⟩⟩ [stumbleMistake] := by
  have failed : Parser.parse stumble.full = .error ([stumbleMistake] ++ ⟨.strayReturn, ⟨1, 24⟩⟩ :: []) := rfl
  exact ⟨failed, stray_returns_follow_mistakes (fun _ found => ⟨stumbleEnclosure, stumble_holds found⟩) failed rfl⟩

/-- With balanced brackets and every `return` in the body of a function at the top level, a misplaced `return` may still
    be reported. -/
theorem recovery_invents_stray_return :
    ¬ ∀ s : TokenStream, Balanced s.tokens →
      (∀ k, (s.cursor k).kind = some (kw .returnKw) → ∃ f : Enclosure s, Balanced f.before ∧ f.Holds k) →
      ∀ mistakes, Parser.parse s = .error mistakes → ∀ d ∈ mistakes, d.fault ≠ .strayReturn := by
  intro always
  have enclosed (k : Nat) (found : (stumble.full.cursor k).kind = some (kw .returnKw)) :
      ∃ f : Enclosure stumble.full, Balanced f.before ∧ f.Holds k := ⟨stumbleEnclosure, rfl, stumble_holds found⟩
  have never := always stumble.full rfl enclosed [stumbleMistake, ⟨.strayReturn, ⟨1, 24⟩⟩] rfl
  exact never ⟨.strayReturn, ⟨1, 24⟩⟩ (List.mem_cons_of_mem _ List.mem_cons_self) rfl

end Sketch
