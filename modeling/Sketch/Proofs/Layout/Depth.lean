import Sketch.Proofs.Layout.Idempotence
import Sketch.Proofs.Layout.Levels

/-!
The depth that the formatter has at each line of a text that compiles. It is zero where an item begins, unless a
keyword was judged wrongly by the braces on its line.
-/

namespace Sketch

namespace Layout

open Lexer (Cut Spells Trivia)

/-! ### Marks and tokens -/

/-- Whether a mark is a word or one of the brackets. -/
def Mark.isReal : Mark → Bool
  | .opener c => c = '\x7b' || c = '[' || c = '('
  | .closer c => c = '\x7d' || c = ']' || c = ')'
  | .word _ => true

theorem isReal_of_mem_marks (inComment leading : Bool) (cs : List Char) :
    ∀ m ∈ (marks inComment leading cs).1, m.mark.isReal = true := by
  fun_induction marks inComment leading cs with
  | case1 | case3 | case4 => exact List.forall_mem_nil _
  | case2 | case5 | case6 | case10 => assumption
  | case7 | case8 | case9 =>
    refine List.forall_mem_cons.mpr ⟨?_, by simp_all⟩
    simp_all [Mark.isReal, or_assoc]

/-- A mark counts as the token that it is. -/
theorem Mark.counts_eq {mark : Mark} (real : mark.isReal = true) :
    (∀ braces, mark.delta braces = (mark.kind?.map (·.delta braces)).getD 0) ∧
      (mark = .opener '\x7b' || mark = .closer '\x7d') = mark.kind?.any (·.isBrace) := by
  cases mark with
  | opener c | closer c =>
    simp only [Mark.isReal, Bool.or_eq_true, decide_eq_true_eq] at real
    rcases real with (rfl | rfl) | rfl <;> exact ⟨fun _ => rfl, by decide⟩
  | word w =>
    rw [Mark.kind?.eq_def]
    split
    case h_1 same | h_2 same | h_3 same | h_4 same | h_5 same | h_6 same => cases same
    case h_7 same | h_8 same | h_9 same | h_10 same | h_11 same | h_12 same =>
      cases same
      exact ⟨fun braces => by cases braces <;> rfl, by simp [TokenKind.isBrace]⟩
    case h_13 others => simp_all [Mark.delta]

/-- The change of level by the tokens of a line. -/
def total (braces : Bool) (kinds : List TokenKind) : Int := kinds.foldr (fun kind rest => kind.delta braces + rest) 0

theorem hasBrace_eq {ms : List Placed} (real : ∀ m ∈ ms, m.mark.isReal = true) :
    hasBrace ms = (kinds ms).any (·.isBrace) := by
  induction ms with
  | nil => rfl
  | cons m ms ih =>
    rw [List.forall_mem_cons] at real
    rw [hasBrace, List.any_cons, (Mark.counts_eq real.1).2, ← hasBrace, ih real.2, kinds, kinds,
      List.filterMap_cons]
    cases m.mark.kind? <;> rfl

/-- A line changes the depth as its tokens change the level. -/
theorem shape_delta {ms : List Placed} (real : ∀ m ∈ ms, m.mark.isReal = true) :
    (shape ms).delta = total ((kinds ms).any (·.isBrace)) (kinds ms) := by
  rw [shape, ← hasBrace_eq real]
  generalize hasBrace ms = braces
  induction ms with
  | nil => rfl
  | cons m ms ih =>
    rw [List.forall_mem_cons] at real
    have rest := ih real.2
    dsimp only [List.foldr_cons] at rest ⊢
    rw [rest, (Mark.counts_eq real.1).1, kinds, kinds, List.filterMap_cons]
    cases m.mark.kind? with
    | none => exact Int.zero_add _
    | some kind => rfl

theorem isReal_of_mem_scanLines {inComment : Bool} {lines : List (List Char)} :
    ∀ ms ∈ scanLines inComment lines, ∀ m ∈ ms, m.mark.isReal = true := by
  induction lines generalizing inComment with
  | nil => exact List.forall_mem_nil _
  | cons raw rest ih =>
    exact List.forall_mem_cons.mpr ⟨isReal_of_mem_marks _ _ _, ih⟩

theorem delta_of_not_counts (braces : Bool) {kind : TokenKind} (uncounted : kind.counts = false) :
    kind.delta braces = 0 := by
  rw [TokenKind.delta.eq_def]
  split <;> first | rfl | cases uncounted

theorem changes_onLine (s : TokenStream) (tokens : List Token) (line : Nat) :
    s.changes (tokens.filter (·.pos.line = line)) = total (s.hasBrace line) (tokensOn tokens line) := by
  induction tokens with
  | nil => rfl
  | cons t tokens ih =>
    rw [tokensOn_cons, List.filter_cons]
    by_cases here : t.pos.line = line
    · have first : s.change t = t.kind.delta (s.hasBrace line) := by rw [TokenStream.change, here]
      rw [if_pos (by simpa using here), if_pos here, counted, TokenStream.changes_cons, ih, first]
      cases counts : t.kind.counts with
      | true => rfl
      | false =>
        rw [delta_of_not_counts _ counts]
        exact Int.zero_add _
    · rw [if_neg (by simpa using here), if_neg here]
      exact ih

/-- The level behind all tokens of the lines up to one. -/
def levelBehind (s : TokenStream) (line : Nat) : Int := s.changes (s.tokens.filter (·.pos.line ≤ line))

/-- A line changes the level by its own tokens. -/
theorem levelBehind_succ (s : TokenStream) (line : Nat) : levelBehind s (line + 1) =
    levelBehind s line + total (s.hasBrace (line + 1)) (tokensOn s.tokens (line + 1)) := by
  rw [← changes_onLine, levelBehind, levelBehind]
  generalize s.tokens = tokens
  induction tokens with
  | nil => rfl
  | cons t tokens ih =>
    simp only [List.filter_cons, decide_eq_true_eq]
    by_cases before : t.pos.line ≤ line
    · rw [if_pos (Nat.le_succ_of_le before), if_pos before, if_neg (by omega), TokenStream.changes_cons,
        TokenStream.changes_cons, ih, Int.add_assoc]
    · by_cases here : t.pos.line = line + 1
      · rw [if_pos (Nat.le_of_eq here), if_neg before, if_pos here, TokenStream.changes_cons,
          TokenStream.changes_cons, ih]
        omega
      · rw [if_neg (by omega), if_neg before, if_neg here, ih]

variable {tokens : List Token}

/-- Tokens that stand on lines in order are cut at the end of each line. -/
theorem filter_line_le (sorted : tokens.Pairwise (·.pos.line ≤ ·.pos.line)) (line : Nat) :
    tokens.filter (·.pos.line ≤ line) = tokens.take (tokens.countP (·.pos.line ≤ line)) := by
  induction sorted with
  | nil => rfl
  | @cons t tokens first rest ih =>
    by_cases before : t.pos.line ≤ line
    · rw [List.filter_cons_of_pos (by simpa using before), List.countP_cons_of_pos (by simpa using before),
        List.take_succ_cons, ih]
    · have none : ∀ u ∈ t :: tokens, ¬(decide (u.pos.line ≤ line) = true) := by
        simp only [List.forall_mem_cons, decide_eq_true_eq]
        exact ⟨before, fun u mem => fun above => before (Nat.le_trans (first u mem) above)⟩
      rw [List.filter_eq_nil_iff.mpr none, List.countP_eq_zero.mpr none, List.take_zero]

/-! ### Depth -/

/-- The depth behind lines, given the depth in front of them. -/
def depthBehind (depth : Nat) (found : List (List Placed)) : Nat :=
  found.foldl (fun depth ms => ((depth : Int) + (shape ms).delta).toNat) depth

theorem getElem?_layLines (depth : Nat) (lines : List (List Char × List Placed)) (n : Nat) :
    (layLines depth lines)[n]? = lines[n]?.map fun line => if Text.trim line.1 = [] then []
      else indent (depthBehind depth ((lines.map (·.2)).take n) - (shape line.2).dedent) ++ Text.trim line.1 := by
  induction lines generalizing depth n with
  | nil => rfl
  | cons line lines ih =>
    cases n with
    | zero => rfl
    | succ n => exact ih _ n

/-- The depth is the height of the level over one that it had before. -/
theorem exists_depthBehind {found : List (List Placed)} {level : Nat → Int}
    (steps : ∀ k, level (k + 1) = level k + (shape (found.getD k [])).delta) (n : Nat) :
    ∃ k ≤ n, (depthBehind 0 (found.take n) : Int) = level n - level k := by
  induction n with
  | zero => exact ⟨0, Nat.le_refl 0, by simp [depthBehind]⟩
  | succ n ih =>
    obtain ⟨k, before, height⟩ := ih
    have next : depthBehind 0 (found.take (n + 1)) =
        ((depthBehind 0 (found.take n) : Int) + (shape (found.getD n [])).delta).toNat := by
      rw [List.take_add_one, List.getD_eq_getElem?_getD]
      cases found[n]? with
      | none => simp [shape]
      | some ms => simp [depthBehind]
    have step := steps n
    rw [next]
    rcases Int.le_total 0 (level (n + 1) - level k) with above | below
    · exact ⟨k, Nat.le_succ_of_le before, by omega⟩
    · exact ⟨n + 1, Nat.le_refl _, by omega⟩

/-! ### Lines of tokens -/

/-- A text in front of another adds lines, up to the first line of the other. -/
theorem splitLines_behind (text : List Char) {rest line : List Char} {n : Nat}
    (found : (Text.splitLines rest)[n]? = some line) :
    ∃ whole, (Text.splitLines (text ++ rest))[text.count '\n' + n]? = some whole ∧ line <:+ whole := by
  induction text with
  | nil => exact ⟨line, by simpa using found, List.suffix_refl line⟩
  | cons c text ih =>
    obtain ⟨whole, found, ends⟩ := ih
    by_cases newline : c = '\n'
    · refine ⟨whole, ?_, ends⟩
      rw [newline, List.count_cons_self, Nat.add_right_comm, List.cons_append, Text.splitLines, if_pos rfl]
      exact found
    · obtain ⟨first, others, pieces, -⟩ := exists_splitLines (text ++ rest)
      have visible : '\n' ∉ [c] := by simpa using Ne.symm newline
      have more : Text.splitLines (c :: (text ++ rest)) = (c :: first) :: others := splitLines_append visible pieces
      rw [pieces] at found
      rw [List.count_cons_of_ne newline, List.cons_append, more]
      cases index : text.count '\n' + n with
      | zero =>
        rw [index] at found
        cases found
        exact ⟨c :: whole, rfl, ends.trans (List.suffix_cons c whole)⟩
      | succ index' =>
        rw [index] at found
        exact ⟨whole, found, ends⟩

/-- The line of a token is not blank. -/
theorem Cut.exists_ink {before ahead : List Char} {faults : List Diagnostic} {stop : Pos}
    (cut : Cut before ahead tokens faults stop) : ∀ t ∈ tokens, ∃ n line, t.pos.line = 1 + before.count '\n' + n ∧
      (Text.splitLines ahead)[n]? = some line ∧ ∃ c ∈ line, Text.isBlank c = false := by
  have later {before text rest : List Char} {t : Token} (behind : ∃ n line,
      t.pos.line = 1 + (before ++ text).count '\n' + n ∧ (Text.splitLines rest)[n]? = some line ∧
        ∃ c ∈ line, Text.isBlank c = false) : ∃ n line, t.pos.line = 1 + before.count '\n' + n ∧
      (Text.splitLines (text ++ rest))[n]? = some line ∧ ∃ c ∈ line, Text.isBlank c = false := by
    obtain ⟨n, line, place, found, c, mem, ink⟩ := behind
    obtain ⟨whole, found', ends⟩ := splitLines_behind text found
    refine ⟨text.count '\n' + n, whole, ?_, found', c, ends.mem mem, ink⟩
    rw [place, List.count_append]
    omega
  induction cut with
  | stop => exact List.forall_mem_nil _
  | trivia _ _ ih | fault _ _ ih =>
    exact fun t mem => later (ih t mem)
  | @token before text rest kind tokens faults stop spelled longest ink more ih =>
    refine List.forall_mem_cons.mpr ⟨?_, fun t mem => later (ih t mem)⟩
    obtain ⟨first, others, pieces, -⟩ := exists_splitLines rest
    obtain ⟨inside, body, c, whole, ink⟩ := Lexer.Spells.solid spelled
    refine ⟨0, text ++ first, rfl, ?_, c, ?_, ink⟩
    · rw [splitLines_append inside pieces]
      rfl
    · exact List.mem_append_left first (whole ▸ List.mem_append_right body List.mem_cons_self)

end Layout

variable {s : TokenStream} {i : Nat}

/-- Where an item begins, and at the end, nothing before was lower, unless a keyword was misjudged. -/
theorem Reads.falls {j : Nat} {reads : List (Nat × Item)} (reading : Reads s i reads)
    (inside : i ≤ s.tokens.length) (starts : j ∈ reads.map (·.1) ++ [s.tokens.length]) :
    i ≤ j ∧ j ≤ s.tokens.length ∧ ((∀ k < j, ¬s.Misjudged k) → Falls s 0 i j) := by
  induction reading with
  | done =>
    obtain rfl := List.mem_singleton.mp starts
    exact ⟨inside, inside, fun _ => .refl s _⟩
  | separator found rest ih =>
    obtain ⟨forward, within, falls⟩ := ih (TokenStream.lt_of_cursor_kind found) starts
    refine ⟨Nat.le_of_succ_le forward, within, fun judged => ?_⟩
    exact (falls judged).cons (TokenStream.level_succ_le found) (Int.le_refl 0)
  | item inside' did rest ih =>
    rw [List.map_cons, List.cons_append, List.mem_cons] at starts
    rcases starts with rfl | starts
    · exact ⟨Nat.le_refl _, inside, fun _ => .refl s _⟩
    · obtain ⟨onward, first⟩ := round_item did inside inside'
      obtain ⟨forward, within, falls⟩ := ih inside' starts
      refine ⟨by omega, within, fun judged => ?_⟩
      have item := (first.falls inside fun k before => judged k (by omega)).1 0 rfl
      exact item.append (falls judged)

theorem Reads.lt_length {reads : List (Nat × Item)} (reading : Reads s i reads)
    (inside : i ≤ s.tokens.length) : ∀ j ∈ reads.map (·.1), j < s.tokens.length := by
  induction reading with
  | done => exact List.forall_mem_nil _
  | separator found rest ih => exact ih (TokenStream.lt_of_cursor_kind found)
  | item inside' did rest ih =>
    have onward := (round_item did inside inside').1
    exact List.forall_mem_cons.mpr ⟨Nat.lt_of_lt_of_le onward inside', ih inside'⟩

namespace Layout

/-! ### Items -/

section Items

variable {source : String} {s : TokenStream} {i line : Nat}

/-- The lines up to one hold the tokens in front of an index, and no others. -/
def Parts (s : TokenStream) (i line : Nat) : Prop :=
  (∀ t ∈ s.tokens.take i, t.pos.line ≤ line) ∧ ∀ t ∈ s.tokens.drop i, line < t.pos.line

theorem cursor_line (inside : i < s.tokens.length) : (s.cursor i).pos.line = s.tokens[i].pos.line := by
  rw [TokenStream.cursor_pos, List.getElem?_eq_getElem inside]
  rfl

theorem parts_of_first (sorted : s.tokens.Pairwise (·.pos.line ≤ ·.pos.line)) (inside : i < s.tokens.length)
    (here : (s.cursor i).pos.line = line + 1) (first : ∀ k < i, (s.cursor k).pos.line ≠ (s.cursor i).pos.line) :
    Parts s i line := by
  rw [List.pairwise_iff_getElem] at sorted
  rw [cursor_line inside] at here first
  constructor
  · intro t mem
    obtain ⟨k, before, rfl⟩ := List.mem_take_iff_getElem.mp mem
    have within : k < s.tokens.length := by omega
    have early := sorted k i within inside (by omega)
    have other := first k (by omega)
    rw [cursor_line within] at other
    omega
  · intro t mem
    obtain ⟨k, behind, rfl⟩ := List.mem_drop_iff_getElem.mp mem
    rcases Nat.eq_zero_or_pos k with rfl | later
    · simp only [Nat.add_zero]
      omega
    · have late := sorted i (i + k) inside (by omega) (by omega)
      omega

theorem countP_of_parts (parts : Parts s i line) (inside : i ≤ s.tokens.length) :
    s.tokens.countP (·.pos.line ≤ line) = i := by
  have front : (s.tokens.take i).countP (·.pos.line ≤ line) = (s.tokens.take i).length :=
    List.countP_eq_length.mpr fun t mem => decide_eq_true (parts.1 t mem)
  have back : (s.tokens.drop i).countP (·.pos.line ≤ line) = 0 :=
    List.countP_eq_zero.mpr fun t mem => by simpa using parts.2 t mem
  rw [← List.take_append_drop i s.tokens, List.countP_append, front, back, List.length_take]
  omega

theorem levelBehind_eq (accepted : Lexer.tokenize source = .ok s) (line : Nat) :
    levelBehind s line = s.level (s.tokens.countP (·.pos.line ≤ line)) := by
  rw [levelBehind, filter_line_le (Lexer.cut_of_tokenize accepted).sorted.1]
  rfl

theorem levelBehind_step (accepted : Lexer.tokenize source = .ok s) (k : Nat) : levelBehind s (k + 1) =
    levelBehind s k + (shape ((scanLines false (Text.splitLines source.toList)).getD k [])).delta := by
  have real : ∀ m ∈ (scanLines false (Text.splitLines source.toList)).getD k [], m.mark.isReal = true := by
    rw [List.getD_eq_getElem?_getD]
    cases found : (scanLines false (Text.splitLines source.toList))[k]? with
    | none => exact List.forall_mem_nil _
    | some ms => exact isReal_of_mem_scanLines ms (List.mem_of_getElem? found)
  rw [levelBehind_succ, shape_delta real, kinds_getD, kinds_scanLines, ← seenText, getD_seenText accepted]
  rfl

/-- Where the level is lowest, the depth is zero. -/
theorem depthBehind_eq_zero (accepted : Lexer.tokenize source = .ok s) (falls : Falls s 0 0 i)
    (inside : i ≤ s.tokens.length) (parts : Parts s i line) :
    depthBehind 0 ((scanLines false (Text.splitLines source.toList)).take line) = 0 := by
  obtain ⟨k, before, height⟩ := exists_depthBehind (levelBehind_step accepted) line
  have same := countP_of_parts parts inside
  have fewer : s.tokens.countP (·.pos.line ≤ k) ≤ i := by
    rw [← same]
    exact List.countP_mono_left fun t _ above => by simp at above ⊢; omega
  have lowest := falls.lowest _ (Nat.zero_le _) fewer
  rw [levelBehind_eq accepted, levelBehind_eq accepted, same] at height
  omega

theorem length_scanLines (inComment : Bool) (lines : List (List Char)) :
    (scanLines inComment lines).length = lines.length := by
  induction lines generalizing inComment with
  | nil => rfl
  | cons raw rest ih => exact congrArg (· + 1) (ih _)

variable {raw : List Char}

/-- What is left of a line that is not blank begins with no blank. -/
theorem exists_trim_eq (inked : ∃ c ∈ raw, Text.isBlank c = false) :
    ∃ c text, Text.trim raw = c :: text ∧ Text.isBlank c = false := by
  cases left : Text.trim raw with
  | nil =>
    obtain ⟨lead, trail, whole, blank, blank'⟩ := Text.exists_trimmed raw
    obtain ⟨c, mem, ink⟩ := inked
    rw [whole, left, List.nil_append, List.mem_append] at mem
    rcases mem with mem | mem
    · cases (blank c mem).symm.trans ink
    · cases (blank' c mem).symm.trans ink
  | cons c text =>
    refine ⟨c, text, rfl, ?_⟩
    have trimmed := Text.trimStart_trim raw
    rw [left, Text.trimStart, List.dropWhile_eq_self_iff] at trimmed
    exact Bool.eq_false_iff.mpr (trimmed (Nat.succ_pos _))

/-- A line that is not blank begins with no blank when it stands at no depth. -/
theorem format_line_of_depth (there : (Text.splitLines source.toList)[line]? = some raw)
    (inked : ∃ c ∈ raw, Text.isBlank c = false)
    (depth : depthBehind 0 ((scanLines false (Text.splitLines source.toList)).take line) = 0) :
    ∃ c text, (Text.splitLines (format source).toList)[line]? = some (c :: text) ∧ Text.isBlank c = false := by
  obtain ⟨c, text, left, ink⟩ := exists_trim_eq inked
  refine ⟨c, text, ?_, ink⟩
  rw [splitLines_format, formatLines_eq, getElem?_layLines,
    List.map_snd_zip (Nat.le_of_eq (length_scanLines false _)), depth]
  have within := (List.getElem?_eq_some_iff.mp there).1
  rw [← length_scanLines false] at within
  have both : ((Text.splitLines source.toList).zip (scanLines false (Text.splitLines source.toList)))[line]? =
      some (raw, (scanLines false (Text.splitLines source.toList))[line]) :=
    List.getElem?_zip_eq_some.mpr ⟨there, List.getElem?_eq_getElem within⟩
  rw [both, Option.map_some, left, if_neg (List.cons_ne_nil c text), Nat.zero_sub]
  rfl

/-- Every item closes the levels that it opens, unless a keyword before is misjudged: the depth is zero wherever a line
    ends between items, and a line that begins with an item is not indented. -/
theorem items_not_indented {p : Program} {warnings : List Diagnostic}
    (accepted : compile source = .ok (p, warnings)) : ∃ s reads, Lexer.tokenize source = .ok s ∧ Reads s 0 reads ∧
      reads.map (·.2) = p.items ∧
      (∀ i ∈ reads.map (·.1) ++ [s.tokens.length], (∀ k < i, ¬s.Misjudged k) → ∀ line, Parts s i line →
        depthBehind 0 ((scanLines false (Text.splitLines source.toList)).take line) = 0) ∧
      ∀ i ∈ reads.map (·.1), (∀ k < i, ¬s.Misjudged k) → (∀ k < i, (s.cursor k).pos.line ≠ (s.cursor i).pos.line) →
        ∃ c text, (Text.splitLines (format source).toList)[(s.cursor i).pos.line - 1]? = some (c :: text) ∧
          Text.isBlank c = false := by
  obtain ⟨s, tokens, parsed, -⟩ := read_of_compile accepted
  obtain ⟨reads, reading, items⟩ := parse_reads parsed
  have shallow : ∀ i ∈ reads.map (·.1) ++ [s.tokens.length], (∀ k < i, ¬s.Misjudged k) → ∀ line, Parts s i line →
      depthBehind 0 ((scanLines false (Text.splitLines source.toList)).take line) = 0 := by
    intro i starts judged line parts
    obtain ⟨-, inside, falls⟩ := reading.falls (Nat.zero_le _) starts
    exact depthBehind_eq_zero tokens (falls judged) inside parts
  refine ⟨s, reads, tokens, reading, items, shallow, fun i starts judged first => ?_⟩
  have inside := reading.lt_length (Nat.zero_le _) i starts
  have cut := Lexer.cut_of_tokenize tokens
  obtain ⟨n, raw, place, there, inked⟩ := Cut.exists_ink cut _ (List.getElem_mem inside)
  have here : (s.cursor i).pos.line = n + 1 := by
    rw [cursor_line inside, place, List.count_nil]
    omega
  rw [here, Nat.add_sub_cancel]
  apply format_line_of_depth there inked
  exact shallow i (List.mem_append_left _ starts) judged n (parts_of_first cut.sorted.1 inside here first)

/-- Functions and other blocks in both styles, with brackets that close on other lines. -/
def styles : String :=
  "function f(a) \x7b\n return \x7bx: a\x7d\n\x7d\nfunction g(b)\nif b then return f(b)\nelseif [\nb] then " ++
    "return nil\nend\nend; x = true\nwhile x\n\x7b x = f(\nnil)\n\x7d\n" ++
    " if x then\nelse f(\x7bx: \"\x7b\"\x7d) end\ny = x"

theorem items_not_indented_styles : ∃ p warnings s reads, compile styles = .ok (p, warnings) ∧
    Lexer.tokenize styles = .ok s ∧ (∀ k < s.tokens.length, ¬s.Misjudged k) ∧ Reads s 0 reads ∧
    reads.map (·.2) = p.items ∧ p.items.length = 6 ∧
    ∀ i ∈ reads.map (·.1), (∀ k < i, (s.cursor k).pos.line ≠ (s.cursor i).pos.line) →
      ∃ c text, (Text.splitLines (format styles).toList)[(s.cursor i).pos.line - 1]? = some (c :: text) ∧
        Text.isBlank c = false := by
  have compiled : (compile styles).toOption.any (·.1.items.length = 6) = true := by decide +kernel
  have judged : (Lexer.tokenize styles).toOption.all (fun s => ∀ k < s.tokens.length, ¬s.Misjudged k) = true := by
    decide +kernel
  cases accepted : compile styles with
  | error errors =>
      rw [accepted] at compiled
      cases compiled
  | ok result =>
      rw [accepted] at compiled
      obtain ⟨s, reads, tokens, reading, items, -, lines⟩ := items_not_indented accepted
      rw [tokens] at judged
      have judged' : ∀ k < s.tokens.length, ¬s.Misjudged k := of_decide_eq_true judged
      refine ⟨result.1, result.2, s, reads, rfl, tokens, judged', reading, items, of_decide_eq_true compiled, ?_⟩
      intro i starts first
      have inside := reading.lt_length (Nat.zero_le _) i starts
      exact lines i starts (fun k before => judged' k (Nat.lt_trans before inside)) first

/-- A function whose body stands in braces that are not on the line of its keyword. -/
def strayBrace : String := "function f()\n\x7b\n\x7d\nx = true"

def strayTokens : TokenStream where
  tokens :=
    [⟨.keyword .functionKw, ⟨1, 1⟩⟩, ⟨.ident "f", ⟨1, 10⟩⟩, ⟨.punct .lparen, ⟨1, 11⟩⟩, ⟨.punct .rparen, ⟨1, 12⟩⟩,
      ⟨.punct .lbrace, ⟨2, 1⟩⟩, ⟨.punct .rbrace, ⟨3, 1⟩⟩, ⟨.ident "x", ⟨4, 1⟩⟩, ⟨.punct .eq, ⟨4, 3⟩⟩,
      ⟨.bool true, ⟨4, 5⟩⟩]
  stop := ⟨4, 9⟩

/-- A line that begins with an item is indented behind a keyword that is misjudged. -/
theorem item_indented_strayBrace : ∃ p warnings reads, compile strayBrace = .ok (p, warnings) ∧
    Lexer.tokenize strayBrace = .ok strayTokens ∧ Reads strayTokens 0 reads ∧ reads.map (·.2) = p.items ∧
    6 ∈ reads.map (·.1) ∧ (∀ k < 6, (strayTokens.cursor k).pos.line ≠ (strayTokens.cursor 6).pos.line) ∧
    strayTokens.Misjudged 0 ∧
    (Text.splitLines (format strayBrace).toList)[(strayTokens.cursor 6).pos.line - 1]? = some "  x = true".toList := by
  have compiled : (compile strayBrace).isOk = true := by decide +kernel
  have tokens : Lexer.tokenize strayBrace = .ok strayTokens := by decide +kernel
  have laid : (format strayBrace).toList = "function f()\n  \x7b\n  \x7d\n  x = true".toList := by decide +kernel
  have ends : (Parser.round false (strayTokens.cursor 0)).2 = strayTokens.cursor 6 := by decide +kernel
  cases accepted : compile strayBrace with
  | error errors =>
      rw [accepted] at compiled
      cases compiled
  | ok result =>
      obtain ⟨s, tokens', parsed, -⟩ := read_of_compile accepted
      obtain rfl : strayTokens = s := Except.ok.inj (tokens.symm.trans tokens')
      obtain ⟨reads, reading, items⟩ := parse_reads parsed
      refine ⟨result.1, result.2, reads, rfl, tokens, reading, items, ?_, by decide, by decide +kernel, ?_⟩
      · cases reading with
        | separator found => cases found
        | item inside did rest =>
            rw [did] at ends
            obtain rfl := TokenStream.cursor_inj inside (by decide) ends
            cases rest with
            | separator found => cases found
            | item => exact List.mem_cons_of_mem _ List.mem_cons_self
      · rw [laid]
        decide

end Items

end Layout

end Sketch
