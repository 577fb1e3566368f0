import Sketch.Proofs.ErrorLine.Bytewise

/-!
What the search for the line of an error answers: a line of the source. It fails only if the name that a message
mentions stands behind a character of several bytes. A position in a message counts bytes.
-/

namespace Sketch.ErrorLine

variable {text stack code before after name : List Char} {offset n p : Nat}

/-! ### Clues -/

/-- Whether there is a line `n` in a source. -/
def InSource (code : List Char) (n : Nat) : Prop := 1 ≤ n ∧ n ≤ code.count '\n' + 1

/-- The message mentions no line of the source. -/
def NoLine (text code : List Char) : Prop := ∀ n, numberAfter "line".toList text = some n → ¬InSource code n

/-- The message mentions no position in the source. -/
def NoPosition (text code : List Char) : Prop :=
  ∀ p, numberAfter "position".toList text = some p → byteLength code ≤ p

/-- The first mark in the stack is no line of the source. -/
def NoMark (stack code : List Char) (offset : Nat) : Prop :=
  ∀ n, (Text.lines stack).findSome? stackLine = some n → ¬(offset ≤ n ∧ InSource code (n - offset))

/-- What the name of an undefined variable tells, or else the source alone. -/
def scanFor (code : List Char) (name : Option (List Char)) : Option Nat :=
  (name.bind fun name =>
    firstLine? (fun line => !isComment line && containsWord line name) (Text.splitLines code)).or
    (scanSource (Text.splitLines code))

/-- The clue that an answer comes from, with those in front of it missing. -/
inductive Clue (text stack code : List Char) (offset : Nat) : Except CutError (Option Nat) → Prop
  | line {n : Nat} (mentioned : numberAfter "line".toList text = some n) (inside : InSource code n) :
      Clue text stack code offset (.ok (some n))
  | position {p : Nat} (noLine : NoLine text code) (mentioned : numberAfter "position".toList text = some p)
      (inside : p < byteLength code) : Clue text stack code offset (.ok (some (lineOfPosition code p)))
  | mark {n : Nat} (noLine : NoLine text code) (noPosition : NoPosition text code)
      (marked : (Text.lines stack).findSome? stackLine = some n) (enough : offset ≤ n)
      (inside : InSource code (n - offset)) : Clue text stack code offset (.ok (some (n - offset)))
  | name {found : Option (List Char)} (noLine : NoLine text code) (noPosition : NoPosition text code)
      (noMark : NoMark stack code offset) (cut : undefinedName text = .ok found) :
      Clue text stack code offset (.ok (scanFor code found))
  | inside (noLine : NoLine text code) (noPosition : NoPosition text code) (noMark : NoMark stack code offset)
      (uncut : undefinedName text = .error .insideCharacter) : Clue text stack code offset (.error .insideCharacter)

theorem length_splitLines (cs : List Char) : (Text.splitLines cs).length = cs.count '\n' + 1 := by
  induction cs with
  | nil => rfl
  | cons c cs ih =>
    rw [Text.splitLines, List.count_cons]
    by_cases newline : c = '\n'
    · rw [if_pos newline, List.length_cons, ih, newline]
      rfl
    · rw [if_neg newline, if_neg (by simpa using newline), ← ih]
      cases pieces : Text.splitLines cs with
      | nil => simp [pieces] at ih
      | cons line rest => rfl

/-- Every answer comes from a clue, by the first that there is. -/
theorem locate_clue (message stack source : String) (offset : Nat) :
    Clue message.toList stack.toList source.toList offset (locate message stack source offset) := by
  have inSource (n : Nat) : (1 ≤ n && n ≤ (Text.splitLines source.toList).length) = true ↔
      InSource source.toList n := by
    rw [InSource, length_splitLines, Bool.and_eq_true, decide_eq_true_eq, decide_eq_true_eq]
  dsimp only [locate]
  cases line : (numberAfter "line".toList message.toList).filter _ with
  | some n =>
    rw [Option.filter_eq_some_iff, inSource] at line
    exact .line line.1 line.2
  | none =>
    have noLine : NoLine message.toList source.toList := fun n mentioned =>
      (inSource n).not.mp (Option.filter_eq_none_iff.mp line n mentioned)
    cases position : (numberAfter "position".toList message.toList).filter _ with
    | some p =>
      rw [Option.filter_eq_some_iff, decide_eq_true_eq] at position
      exact .position noLine position.1 position.2
    | none =>
      have noPosition : NoPosition message.toList source.toList := by
        intro p mentioned
        have := Option.filter_eq_none_iff.mp position p mentioned
        rwa [decide_eq_true_eq, Nat.not_lt] at this
      cases mark : ((Text.lines stack.toList).findSome? stackLine).bind _ with
      | some n =>
        obtain ⟨m, marked, inside⟩ := Option.bind_eq_some_iff.mp mark
        obtain ⟨⟨enough, line⟩, ⟨⟩⟩ := Option.ite_none_right_eq_some.mp inside
        exact .mark noLine noPosition marked enough ((inSource _).mp line)
      | none =>
        have noMark : NoMark stack.toList source.toList offset := by
          rintro n marked ⟨enough, inside⟩
          rw [marked, Option.bind_some, if_pos ⟨enough, (inSource _).mpr inside⟩] at mark
          cases mark
        cases named : undefinedName message.toList with
        | ok found => exact .name noLine noPosition noMark named
        | error => exact .inside noLine noPosition noMark named

/-! ### Answers inside the source -/

theorem firstLine?_inside {test : List Char → Bool} {lines : List (List Char)}
    (found : firstLine? test lines = some n) : 1 ≤ n ∧ n ≤ lines.length := by
  obtain ⟨i, foundAt, rfl⟩ := Option.map_eq_some_iff.mp found
  have := (List.findIdx?_eq_some_iff_findIdx_eq.mp foundAt).1
  omega

theorem unbalancedLine_inside {first depth : Nat} {lines : List (List Char)}
    (found : unbalancedLine first depth lines = some n) : first ≤ n ∧ n < first + lines.length := by
  induction lines generalizing first depth with
  | nil => cases found
  | cons line rest ih =>
    rw [unbalancedLine] at found
    rw [List.length_cons]
    cases closed : bracketDepth depth (codePart line) with
    | none =>
      rw [closed, Option.some.injEq] at found
      omega
    | some depth =>
      rw [closed] at found
      have := ih found
      omega

theorem scanFor_inside {found : Option (List Char)} (answer : scanFor code found = some n) : InSource code n := by
  rw [InSource, ← length_splitLines]
  rcases Option.or_eq_some_iff.mp answer with named | ⟨-, scanned⟩
  · obtain ⟨name, -, line⟩ := Option.bind_eq_some_iff.mp named
    exact firstLine?_inside line
  · rcases Option.or_eq_some_iff.mp scanned with unbalanced | ⟨-, dangling⟩
    · have := unbalancedLine_inside unbalanced
      omega
    · exact firstLine?_inside dangling

theorem lineOfPosition_inside (code : List Char) (p : Nat) : InSource code (lineOfPosition code p) := by
  obtain ⟨after, whole, -, -⟩ := exists_takeBytes p code
  have fewer := (List.prefix_append (takeBytes p code) after).sublist.count_le '\n'
  rw [← whole] at fewer
  exact ⟨Nat.le_add_left 1 _, Nat.add_le_add_right fewer 1⟩

/-! ### Names that cannot be cut out -/

/-- The first ` is not defined` stands behind a word, and a character of several bytes in front of that. -/
def BehindWideCharacter (text : List Char) : Prop :=
  ∃ head c name quotes after, text = (head ++ c :: (name ++ quotes)) ++ (" is not defined".toList ++ after) ∧
    (∀ earlier later, text = earlier ++ (" is not defined".toList ++ later) →
      (head ++ c :: (name ++ quotes)).length ≤ earlier.length) ∧
    (∀ q ∈ quotes, q = '\'') ∧ (∀ d ∈ name, Text.isWordChar d = true) ∧ Text.isWordChar c = false ∧ 1 < byteSize c

theorem dropWhile_eq_cons_iff {test : Char → Bool} {cs rest : List Char} {c : Char} : cs.dropWhile test = c :: rest ↔
    ∃ front, cs = front ++ c :: rest ∧ (∀ d ∈ front, test d = true) ∧ test c = false := by
  constructor
  · intro left
    have whole := List.takeWhile_append_dropWhile (p := test) (l := cs)
    rw [left] at whole
    have stops := List.head?_dropWhile_not test cs
    rw [left, List.head?_cons] at stops
    exact ⟨_, whole.symm, List.all_eq_true.mp List.all_takeWhile, by simpa using stops⟩
  · rintro ⟨front, rfl, passes, stops⟩
    rw [List.dropWhile_append_of_pos passes, List.dropWhile_cons_of_neg (by simp [stops])]

/-- The character in front of the last word, quotes left out. -/
theorem beforeWord_iff {c : Char} (unlike : c ≠ '\'') :
    ((before.reverse.dropWhile (· = '\'')).dropWhile Text.isWordChar).head? = some c ↔
      ∃ head name quotes, before = head ++ c :: (name ++ quotes) ∧ (∀ q ∈ quotes, q = '\'') ∧
        (∀ d ∈ name, Text.isWordChar d = true) ∧ Text.isWordChar c = false := by
  constructor
  · intro front
    obtain ⟨rest, left⟩ := List.head?_eq_some_iff.mp front
    obtain ⟨name, unquoted, word, other⟩ := dropWhile_eq_cons_iff.mp left
    have whole := List.takeWhile_append_dropWhile (p := (· = '\'')) (l := before.reverse)
    refine ⟨rest.reverse, name.reverse, (before.reverse.takeWhile (· = '\'')).reverse, ?_, ?_, ?_, other⟩
    · rw [unquoted, ← List.reverse_inj, List.reverse_reverse] at whole
      exact whole.symm.trans (by simp)
    · intro q mem
      simpa using List.all_eq_true.mp List.all_takeWhile q (List.mem_reverse.mp mem)
    · intro d mem
      exact word d (List.mem_reverse.mp mem)
  · rintro ⟨head, name, quotes, rfl, quoted, word, other⟩
    have start : ∃ d rest, name.reverse ++ c :: head.reverse = d :: rest ∧ d ≠ '\'' := by
      cases backwards : name.reverse with
      | nil => exact ⟨c, head.reverse, rfl, unlike⟩
      | cons d rest =>
        refine ⟨d, rest ++ c :: head.reverse, rfl, ?_⟩
        rintro rfl
        exact absurd (word _ (List.mem_reverse.mp (backwards ▸ List.mem_cons_self))) (by decide)
    obtain ⟨d, rest, starts, unlikeStart⟩ := start
    have unquoted : (head ++ c :: (name ++ quotes)).reverse.dropWhile (· = '\'') = d :: rest := by
      apply dropWhile_eq_cons_iff.mpr ⟨quotes.reverse, _, _, _⟩
      · simp [← starts]
      · simpa using quoted
      · simpa using unlikeStart
    rw [unquoted, ← starts, dropWhile_eq_cons_iff.mpr ⟨name.reverse, rfl, by simpa using word, other⟩, List.head?_cons]

/-- The same, by the character in front of the name. -/
theorem behindWideCharacter_iff (bare : Text.splitOnce " is not defined".toList text = some (before, after)) :
    BehindWideCharacter text ↔
      ∃ c, ((before.reverse.dropWhile (· = '\'')).dropWhile Text.isWordChar).head? = some c ∧ 1 < byteSize c := by
  have unlike {c : Char} (wide : 1 < byteSize c) : c ≠ '\'' := by
    rintro rfl
    exact absurd wide (by decide)
  constructor
  · rintro ⟨head, c, name, quotes, later, whole, first, quoted, word, other, wide⟩
    have same := bare.symm.trans (Text.splitOnce_eq_some_iff.mpr ⟨whole, first⟩)
    rw [Option.some.injEq, Prod.mk.injEq] at same
    exact ⟨c, (beforeWord_iff (unlike wide)).mpr ⟨head, name, quotes, same.1, quoted, word, other⟩, wide⟩
  · rintro ⟨c, front, wide⟩
    obtain ⟨whole, first⟩ := Text.splitOnce_eq_some_iff.mp bare
    obtain ⟨head, name, quotes, rfl, quoted, word, other⟩ := (beforeWord_iff (unlike wide)).mp front
    exact ⟨head, c, name, quotes, after, whole, first, quoted, word, other, wide⟩

/-- When the name in a message cannot be cut out. -/
theorem undefinedName_error_iff : undefinedName text = .error .insideCharacter ↔
    ¬"undefined variable `".toList <:+: text ∧ ¬"undefined function `".toList <:+: text ∧ BehindWideCharacter text := by
  dsimp only [undefinedName]
  rw [← Text.splitOnce_eq_none_iff, ← Text.splitOnce_eq_none_iff]
  cases Text.splitOnce "undefined variable `".toList text with
  | some parts => exact iff_of_false (by rintro ⟨⟩) (by rintro ⟨⟨⟩, -⟩)
  | none =>
    cases Text.splitOnce "undefined function `".toList text with
    | some parts => exact iff_of_false (by rintro ⟨⟩) (by rintro ⟨-, ⟨⟩, -⟩)
    | none =>
      cases bare : Text.splitOnce " is not defined".toList text with
      | none =>
        apply iff_of_false
        · rintro ⟨⟩
        · rintro ⟨-, -, head, c, name, quotes, after, rfl, -⟩
          exact Text.splitOnce_eq_none_iff.mp bare ⟨_, after, List.append_assoc _ _ _⟩
      | some parts =>
        rw [behindWideCharacter_iff bare]
        dsimp only
        cases ((parts.1.reverse.dropWhile (· = '\'')).dropWhile Text.isWordChar).head? with
        | none => simp
        | some c =>
          have some := Text.byteSize_pos c
          by_cases narrow : byteSize c = 1
          · simp [narrow]
          · simp [narrow]
            omega

/-- An answer is a line of the source, and no cut fails but that in front of a name. -/
theorem locate_fails_only_behind_wide_character (message stack source : String) (offset : Nat) :
    locate? message stack source offset = (locate message stack source offset).toOption ∧
    (∀ n, locate message stack source offset = .ok (some n) → 1 ≤ n ∧ n ≤ source.toList.count '\n' + 1) ∧
    (locate message stack source offset = .error .insideCharacter ↔
      NoLine message.toList source.toList ∧ NoPosition message.toList source.toList ∧
      NoMark stack.toList source.toList offset ∧ ¬"undefined variable `".toList <:+: message.toList ∧
      ¬"undefined function `".toList <:+: message.toList ∧ BehindWideCharacter message.toList) := by
  rw [← undefinedName_error_iff]
  apply And.intro (locate?_eq message stack source offset)
  have clue := locate_clue message stack source offset
  generalize locate message stack source offset = answer at clue
  cases clue with
  | line mentioned inside =>
      constructor
      · rintro n ⟨⟩
        exact inside
      · constructor
        · rintro ⟨⟩
        · rintro ⟨noLine, -⟩
          exact absurd inside (noLine _ mentioned)
  | position _ mentioned inside =>
      constructor
      · rintro n ⟨⟩
        exact lineOfPosition_inside _ _
      · constructor
        · rintro ⟨⟩
        · rintro ⟨-, noPosition, -⟩
          exact absurd inside (Nat.not_lt_of_le (noPosition _ mentioned))
  | mark _ _ marked enough inside =>
      constructor
      · rintro n ⟨⟩
        exact inside
      · constructor
        · rintro ⟨⟩
        · rintro ⟨-, -, noMark, -⟩
          exact absurd ⟨enough, inside⟩ (noMark _ marked)
  | name _ _ _ cut =>
      constructor
      · intro n found
        exact scanFor_inside (Except.ok.inj found)
      · constructor
        · rintro ⟨⟩
        · rintro ⟨-, -, -, uncut⟩
          cases cut.symm.trans uncut
  | inside noLine noPosition noMark uncut =>
      constructor
      · rintro n ⟨⟩
      · exact iff_of_true rfl ⟨noLine, noPosition, noMark, uncut⟩

/-! ### Positions -/

/-- Without a line, a position in a message is looked up. -/
theorem locate_of_position {message stack source : String} (noLine : NoLine message.toList source.toList)
    (mentioned : numberAfter "position".toList message.toList = some p) (inside : p < byteLength source.toList) :
    locate message stack source offset = .ok (some (lineOfPosition source.toList p)) := by
  have clue := locate_clue message stack source offset
  generalize locate message stack source offset = answer at clue
  cases clue with
  | line named inside => exact absurd inside (noLine _ named)
  | position _ named _ => rw [Option.some.inj (named.symm.trans mentioned)]
  | mark _ noPosition _ _ _ => exact absurd inside (Nat.not_lt_of_le (noPosition _ mentioned))
  | name _ noPosition _ _ => exact absurd inside (Nat.not_lt_of_le (noPosition _ mentioned))
  | inside _ noPosition _ _ => exact absurd inside (Nat.not_lt_of_le (noPosition _ mentioned))

/-- The characters in front of a byte inside a text. -/
theorem exists_take_bytes (inside : n < byteLength code) : ∃ k, takeBytes n code = code.take k ∧
    byteLength (code.take k) ≤ n ∧ n < byteLength (code.take (k + 1)) := by
  obtain ⟨after, whole, fits, full⟩ := exists_takeBytes n code
  obtain ⟨front, frontIs⟩ : ∃ front, takeBytes n code = front := ⟨_, rfl⟩
  rw [frontIs] at whole fits full
  subst whole
  apply Exists.intro front.length
  rw [frontIs, List.take_left]
  apply And.intro rfl (And.intro fits _)
  cases after with
  | nil =>
    rw [List.append_nil] at inside
    omega
  | cons c after =>
    have next := full c rfl
    simp only [List.take_length_add_append, List.take_succ_cons, List.take_zero, Text.byteLength_append,
      Text.byteLength_cons, Text.byteLength_nil]
    omega

/-- A position counts bytes. Among the characters that are not more than so many bytes the line breaks are counted, and
    so a count of characters finds another line if there is a line break among the characters behind them. -/
theorem position_counts_bytes (message stack source : String) (offset n : Nat)
    (noLine : NoLine message.toList source.toList)
    (mentioned : numberAfter "position".toList message.toList = some n) (inside : n < source.toList.length) :
    ∃ k ≤ n, byteLength (source.toList.take k) ≤ n ∧ n < byteLength (source.toList.take (k + 1)) ∧
      locate message stack source offset = .ok (some (1 + (source.toList.take k).count '\n')) ∧
      (locate message stack source offset = .ok (some (1 + (source.toList.take n).count '\n')) ↔
        '\n' ∉ (source.toList.take n).drop k) ∧
      ((∀ c ∈ source.toList.take n, c.toNat < 128) → k = n) := by
  have inBytes := Nat.lt_of_lt_of_le inside (Text.length_le_byteLength source.toList)
  obtain ⟨k, start, fits, full⟩ := exists_take_bytes inBytes
  have answer : locate message stack source offset = .ok (some (1 + (source.toList.take k).count '\n')) := by
    rw [locate_of_position noLine mentioned inBytes, lineOfPosition, start, Nat.add_comm]
  have short : k ≤ n := by
    have := Text.length_le_byteLength (source.toList.take k)
    rw [List.length_take] at this
    omega
  have split {i : Nat} (le : i ≤ n) : source.toList.take n = source.toList.take i ++ (source.toList.take n).drop i := by
    conv_lhs => rw [← List.take_append_drop i (source.toList.take n), List.take_take, Nat.min_eq_left le]
  refine ⟨k, short, fits, full, answer, ?_, ?_⟩
  · have counts : (source.toList.take n).count '\n' =
        (source.toList.take k).count '\n' + ((source.toList.take n).drop k).count '\n' := by
      conv_lhs => rw [split short, List.count_append]
    rw [answer, counts, ← List.count_eq_zero, Except.ok.injEq, Option.some.injEq]
    omega
  · intro ascii
    have size := Text.byteLength_of_ascii ascii
    rw [List.length_take, Nat.min_eq_left (Nat.le_of_lt inside)] at size
    by_contra less
    rw [split (i := k + 1) (by omega), Text.byteLength_append] at size
    omega

/-- Two letters of two bytes each, and a position behind the second of them that counts characters. -/
theorem position_counts_bytes_accents :
    NoLine "unexpected at position 3".toList "éé\nx".toList ∧
    numberAfter "position".toList "unexpected at position 3".toList = some 3 ∧ 3 < "éé\nx".toList.length ∧
    ∃ k ≤ 3, byteLength ("éé\nx".toList.take k) ≤ 3 ∧ 3 < byteLength ("éé\nx".toList.take (k + 1)) ∧
      locate "unexpected at position 3" "" "éé\nx" 0 = .ok (some (1 + ("éé\nx".toList.take k).count '\n')) ∧
      (locate "unexpected at position 3" "" "éé\nx" 0 = .ok (some (1 + ("éé\nx".toList.take 3).count '\n')) ↔
        '\n' ∉ ("éé\nx".toList.take 3).drop k) ∧
      ((∀ c ∈ "éé\nx".toList.take 3, c.toNat < 128) → k = 3) := by
  have unmentioned : numberAfter "line".toList "unexpected at position 3".toList = none := by decide +kernel
  have noLine : NoLine "unexpected at position 3".toList "éé\nx".toList := by
    intro n mentioned
    cases unmentioned.symm.trans mentioned
  have mentioned : numberAfter "position".toList "unexpected at position 3".toList = some 3 := by decide +kernel
  have inside : 3 < "éé\nx".toList.length := by decide
  exact ⟨noLine, mentioned, inside, position_counts_bytes _ "" _ 0 3 noLine mentioned inside⟩

/-- The line break is the third character and the fifth byte. -/
theorem position_not_in_characters :
    ¬∀ (message stack source : String) (offset n : Nat), NoLine message.toList source.toList →
      numberAfter "position".toList message.toList = some n → n < source.toList.length →
      locate message stack source offset = .ok (some (1 + (source.toList.take n).count '\n')) := by
  intro always
  have unmentioned : numberAfter "line".toList "unexpected at position 3".toList = none := by decide +kernel
  have noLine : NoLine "unexpected at position 3".toList "éé\nx".toList := by
    intro n mentioned
    cases unmentioned.symm.trans mentioned
  have answer := always "unexpected at position 3" "" "éé\nx" 0 3 noLine (by decide +kernel) (by decide)
  exact absurd answer (by decide +kernel)

end Sketch.ErrorLine
