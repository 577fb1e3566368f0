import Sketch.Proofs.Layout.Scanner

/-!
Two readers of one text. The formatter knows of the lines before only whether a comment is open, and still sees the
brackets and block keywords that the lexer sees.
-/

namespace Sketch

/-- The tokens that can matter for the depth of a line. -/
def TokenKind.counts : TokenKind → Bool
  | .punct .lparen | .punct .rparen | .punct .lbracket | .punct .rbracket | .punct .lbrace | .punct .rbrace => true
  | .keyword .functionKw | .keyword .thenKw | .keyword .doKw | .keyword .endKw | .keyword .elseKw
  | .keyword .elseifKw => true
  | _ => false

namespace Layout

open Lexer (isNameStart isNamePart isSpace Spells Stands Trivia Cut)

section Lines

variable {inComment : Bool} {cs rest : List Char} {c : Char}

/-- What is seen of lines, one after the other. -/
def seenLines (inComment : Bool) : List (List Char) → List (List TokenKind)
  | [] => []
  | line :: rest => (seen inComment line).1 :: seenLines (seen inComment line).2 rest

/-- What is seen of a text, line by line. -/
def seenText (inComment : Bool) (cs : List Char) : List (List TokenKind) := seenLines inComment (Text.splitLines cs)

/-- What is seen behind some tokens. -/
def behind (tokens : List TokenKind) (p : List TokenKind × Bool) : List TokenKind × Bool := (tokens ++ p.1, p.2)

/-- Some tokens in front of those of the first line. -/
def onFirst (tokens : List TokenKind) : List (List TokenKind) → List (List TokenKind)
  | [] => []
  | first :: rest => (tokens ++ first) :: rest

theorem onFirst_nil (lines : List (List TokenKind)) : onFirst [] lines = lines := by cases lines <;> rfl

theorem exists_splitLines (cs : List Char) : ∃ first others, Text.splitLines cs = first :: others ∧ first <+: cs ∧
    '\n' ∉ first := by
  cases pieces : Text.splitLines cs with
  | nil => exact absurd pieces (Text.splitLines_ne_nil cs)
  | cons first others =>
    refine ⟨first, others, rfl, ?_, Text.newline_not_mem_of_mem_splitLines (pieces ▸ List.mem_cons_self)⟩
    have joined := joinLines_splitLines cs
    rw [pieces] at joined
    cases others with
    | nil => exact ⟨[], by rw [List.append_nil]; exact joined⟩
    | cons next others => exact ⟨_, joined⟩

variable {text first body : List Char} {after : Bool}

theorem splitLines_append {others : List (List Char)} (inside : '\n' ∉ text)
    (pieces : Text.splitLines rest = first :: others) : Text.splitLines (text ++ rest) = (text ++ first) :: others := by
  induction text with
  | nil => exact pieces
  | cons c text ih =>
    rw [List.mem_cons, not_or] at inside
    rw [List.cons_append, Text.splitLines, if_neg (Ne.symm inside.1), ih inside.2]
    rfl

/-- A piece of a line is seen for itself, whatever comes behind it. -/
theorem seenText_piece {tokens : List TokenKind} (inside : '\n' ∉ text) (sees : ∀ first, first <+: rest → '\n' ∉ first →
      seen inComment (text ++ first) = behind tokens (seen after first)) :
    seenText inComment (text ++ rest) = onFirst tokens (seenText after rest) := by
  obtain ⟨first, others, pieces, starts, oneLine⟩ := exists_splitLines rest
  rw [seenText, seenText, splitLines_append inside pieces, pieces, seenLines, sees first starts oneLine]
  rfl

theorem seenText_unseen (inside : '\n' ∉ text)
    (sees : ∀ first, first <+: rest → '\n' ∉ first → seen inComment (text ++ first) = seen after first) :
    seenText inComment (text ++ rest) = seenText after rest := by
  have passed : seenText inComment (text ++ rest) = onFirst [] (seenText after rest) := seenText_piece inside sees
  rwa [onFirst_nil] at passed

theorem seen_nil : seen inComment [] = ([], inComment) := by
  rw [seen, marks_empty]
  rfl

theorem seenText_newline : seenText inComment ('\n' :: rest) = [] :: seenText inComment rest := by
  rw [seenText, Text.splitLines, if_pos rfl, seenLines, seen_nil]
  rfl

theorem seen_plain (plain : isPlain c = true) : seen false (c :: cs) = seen false cs := by
  rw [seen, marks_plain plain, seen_eq]

/-! ### Trivia -/

theorem seenText_blank (space : isSpace c = true) :
    seenText false (c :: rest) = List.replicate ([c].count '\n') [] ++ seenText false rest := by
  by_cases newline : c = '\n'
  · subst newline
    exact seenText_newline
  · have plain : isPlain c = true := by
      apply isPlain_of_isBlank
      simp only [isSpace, Bool.or_eq_true, decide_eq_true_eq] at space
      rcases space with ((rfl | rfl) | rfl) | rfl <;> rfl
    have visible : '\n' ∉ [c] := by simpa using Ne.symm newline
    rw [List.count_eq_zero.mpr visible]
    exact seenText_unseen visible fun first _ _ => seen_plain plain

/-- One character of a comment. -/
theorem seenText_inside (goesOn : c = '*' → rest.head? ≠ some '/') :
    seenText true (c :: rest) = List.replicate ([c].count '\n') [] ++ seenText true rest := by
  by_cases newline : c = '\n'
  · subst newline
    exact seenText_newline
  · have visible : '\n' ∉ [c] := by simpa using Ne.symm newline
    rw [List.count_eq_zero.mpr visible]
    apply seenText_unseen visible
    intro first starts _
    apply seen_of_afterComment
    apply afterComment_cons
    intro star next
    obtain ⟨tail, rfl⟩ := List.head?_eq_some_iff.mp next
    obtain ⟨more, rfl⟩ := starts
    exact goesOn star rfl

/-- Nothing is seen inside a comment, whatever lines it goes over. -/
theorem seenText_comment (inside : ¬['*', '/'] <:+: body) (apart : rest.head? ≠ some '/') :
    seenText true (body ++ rest) = List.replicate (body.count '\n') [] ++ seenText true rest := by
  induction body with
  | nil => rfl
  | cons c body ih =>
    rw [List.infix_cons_iff, not_or] at inside
    have goesOn : c = '*' → (body ++ rest).head? ≠ some '/' := by
      rintro rfl next
      cases body with
      | nil => exact apart next
      | cons d body =>
        cases next
        exact inside.1 ⟨body, rfl⟩
    rw [List.cons_append, seenText_inside goesOn, ih inside.2, ← List.append_assoc,
      List.replicate_append_replicate, ← List.count_append, List.singleton_append]

theorem seenText_opens : seenText false ('/' :: '*' :: rest) = seenText true rest := by
  change seenText false (['/', '*'] ++ rest) = _
  apply seenText_unseen (by decide)
  intro first _ _
  rw [List.cons_append, List.singleton_append, seen, marks_blockComment, seen_eq]

theorem seenText_closes : seenText true ('*' :: '/' :: rest) = seenText false rest := by
  change seenText true (['*', '/'] ++ rest) = _
  apply seenText_unseen (by decide)
  intro first _ _
  rw [List.cons_append, List.singleton_append, seen, marks_closed rfl, seen_eq]

/-- Nothing is seen of blanks and comments but their lines. -/
theorem seenText_trivia (trivia : Trivia text rest) :
    seenText false (text ++ rest) = List.replicate (text.count '\n') [] ++ seenText false rest := by
  cases trivia with
  | blank space => exact seenText_blank space
  | @line mark body _ isMark inside ends =>
    have noNewline : '\n' ∉ mark :: mark :: body := by
      rcases isMark with rfl | rfl <;> simpa using inside
    have passed : seenText false (mark :: mark :: body ++ rest) = seenText false rest := by
      apply seenText_unseen noNewline
      intro first starts oneLine
      -- The comment goes up to the end of its line.
      obtain rfl : first = [] := by
        rcases ends with rfl | next
        · exact List.prefix_nil.mp starts
        · cases first with
          | nil => rfl
          | cons d first =>
            obtain ⟨more, rfl⟩ := starts
            cases next
            exact absurd List.mem_cons_self oneLine
      rw [List.append_nil, seen, marks_lineComment isMark, seen_nil]
      rfl
    rw [passed, List.count_eq_zero.mpr noNewline]
    rfl
  | @block body _ inside =>
    have lines : ('/' :: '*' :: (body ++ ['*', '/'])).count '\n' = body.count '\n' := by simp
    rw [lines, List.cons_append, List.cons_append, List.append_assoc, seenText_opens]
    exact (seenText_comment inside (by simp)).trans (by rw [List.cons_append, List.singleton_append, seenText_closes])
  | @openBlock body inside =>
    have lines : ('/' :: '*' :: body).count '\n' = body.count '\n' := by simp
    rw [lines, List.cons_append, List.cons_append, seenText_opens, seenText_comment inside (by simp)]
    simp [seenText, Text.splitLines, seenLines, seen_nil]

/-! ### Tokens -/

/-- A token, if it can matter for the depth of a line. -/
def counted (kind : TokenKind) : List TokenKind := if kind.counts then [kind] else []

theorem seen_plains (plain : text.all isPlain = true) : seen false (text ++ cs) = seen false cs := by
  induction text with
  | nil => rfl
  | cons c text ih =>
    rw [List.all_cons, Bool.and_eq_true] at plain
    rw [List.cons_append, seen_plain plain.1, ih plain.2]

/-- What is seen of a line that begins with a mark. -/
theorem seen_mark {mark : Mark} {leading leading' : Bool} {kind : TokenKind} {line rest : List Char}
    (marked : marks false true line = (⟨mark, leading⟩ :: (marks false leading' rest).1, (marks false leading' rest).2))
    (same : mark.kind?.toList = counted kind) : seen false line = behind (counted kind) (seen false rest) := by
  rw [seen, marked, ← seen_eq false leading' rest, ← same, behind, kinds, List.filterMap_cons]
  cases mark.kind? <;> rfl

/-- The formatter and the lexer know the same words. -/
theorem kind?_word (word : String) : (Mark.word word).kind?.toList = counted (.ofWord word) := by
  rw [TokenKind.ofWord]
  cases known : Keyword.ofWord? word with
  | some k =>
    have listed := Lexer.mem_spellings_of_ofWord? known
    cases k
    all_goals
      simp only [Keyword.spellings, Keyword.word, List.mem_cons, List.not_mem_nil, or_false] at listed
    case varKw | nilKw | andKw | orKw | notKw => rcases listed with rfl | rfl <;> rfl
    all_goals
      subst listed
      rfl
  | none =>
    have unmarked : (Mark.word word).kind? = none := by
      rw [Mark.kind?.eq_def]
      split
      case h_1 same | h_2 same | h_3 same | h_4 same | h_5 same | h_6 same => cases same
      case h_7 same | h_8 same | h_9 same | h_10 same | h_11 same | h_12 same =>
        cases same
        cases known
      case h_13 => rfl
    rw [unmarked]
    dsimp only
    split
    case isTrue => rfl
    case isFalse => split <;> rfl

/-- A string that is closed is passed over up to its end. -/
theorem afterString_stands {quote : Char} {content : List Char} (stands : Stands quote body content)
    (isQuote : quote ≠ '\\') (rest : List Char) : afterString quote (body ++ quote :: rest) = rest := by
  induction stands with
  | nil =>
    cases rest with
    | nil => rfl
    | cons d rest => rw [List.nil_append, afterString, if_neg isQuote, if_pos rfl]
  | @char c body content newline close escape more ih =>
    cases tail : body ++ quote :: rest with
    | nil => simp at tail
    | cons d tail' =>
      rw [List.cons_append, tail, afterString, if_neg escape, if_neg close, ← tail, ih]
  | escape known more ih =>
    rw [List.cons_append, List.cons_append, afterString, if_pos rfl, ih]

/-- A word stands in front of nothing that would make it longer. -/
theorem dropWhile_of_longest (start : isNameStart c = true)
    (parts : ∀ d ∈ text, isNamePart d = true) (starts : first <+: rest)
    (longest : ∀ other word, Spells other word → word <+: c :: text ++ rest → word.length ≤ (c :: text).length) :
    (text ++ first).takeWhile isNamePart = text ∧ (text ++ first).dropWhile isNamePart = first := by
  have ends : first.takeWhile isNamePart = [] ∧ first.dropWhile isNamePart = first := by
    cases first with
    | nil => exact ⟨rfl, rfl⟩
    | cons d first =>
      have part : ¬isNamePart d = true := by
        intro part
        have longer : ∀ e ∈ text ++ [d], isNamePart e = true := by
          intro e mem
          rcases List.mem_append.mp mem with mem | mem
          · exact parts e mem
          · rw [List.mem_singleton.mp mem]
            exact part
        obtain ⟨more, rfl⟩ := starts
        have short := longest _ _ (Lexer.spells_ofWord start longer) ⟨first ++ more, by simp⟩
        simp at short
      simp [part]
  rw [List.takeWhile_append_of_pos parts, List.dropWhile_append_of_pos parts, ends.1, ends.2, List.append_nil]
  exact ⟨rfl, rfl⟩

section Spelled

variable {kind : TokenKind} {text first : List Char}

theorem seen_word (start : isNameStart c = true) (spelled : Spells kind (c :: text)) (starts : first <+: rest)
    (longest : ∀ other word, Spells other word → word <+: c :: text ++ rest → word.length ≤ (c :: text).length) :
    seen false (c :: text ++ first) = behind (counted kind) (seen false first) := by
  obtain ⟨parts, rfl⟩ := spelled.word start
  obtain ⟨word, after⟩ := dropWhile_of_longest start parts starts longest
  have marked : marks false true (c :: (text ++ first)) = _ := marks_word start
  rw [word, after] at marked
  exact seen_mark marked (kind?_word _)

theorem seen_string {quote : Char} {body content : List Char} (isQuote : quote = '"' ∨ quote = '\'')
    (stands : Stands quote body content) :
    seen false (quote :: (body ++ [quote]) ++ first) =
      behind (counted (.string (String.ofList content))) (seen false first) := by
  have notEscape : quote ≠ '\\' := by rcases isQuote with rfl | rfl <;> decide
  rw [List.cons_append, List.append_assoc, List.singleton_append, seen, marks_string isQuote,
    afterString_stands stands notEscape, seen_eq]
  rfl

/-- An operator that begins like a comment stands alone or in front of `=`. -/
theorem seen_single (isMark : c = '/' ∨ c = '-') (starts : first <+: rest)
    (ink : ∀ skipped tail, Trivia skipped tail → skipped ++ tail ≠ c :: rest) :
    seen false (c :: first) = seen false first := by
  have other : first.head? ≠ some c := by
    intro next
    obtain ⟨tail, rfl⟩ := List.head?_eq_some_iff.mp next
    obtain ⟨more, rfl⟩ := starts
    have trivia := Lexer.lineComment_trivia isMark (tail ++ more)
    exact ink _ _ trivia List.takeWhile_append_dropWhile
  have block : c = '/' → first.head? ≠ some '*' := by
    rintro rfl next
    obtain ⟨tail, rfl⟩ := List.head?_eq_some_iff.mp next
    obtain ⟨more, rfl⟩ := starts
    have trivia := Lexer.blockComment_trivia (tail ++ more)
    apply ink _ _ trivia
    simpa using Lexer.blockComment_append (tail ++ more)
  rw [seen, marks_single isMark other block, seen_eq]

/-- Symbols are brackets, which both know, or are passed over. -/
theorem seen_punct {p : Punct} (listed : String.ofList text ∈ p.spellings) (starts : first <+: rest)
    (ink : ∀ skipped tail, Trivia skipped tail → skipped ++ tail ≠ text ++ rest) :
    seen false (text ++ first) = behind (counted (.punct p)) (seen false first) := by
  have spelling {s : String} (same : String.ofList text = s) : text = s.toList := by
    rw [← same, String.toList_ofList]
  cases p
  case minus | slash =>
    obtain rfl := spelling (List.mem_singleton.mp listed)
    exact seen_single (by decide) starts ink
  case minusEq =>
    obtain rfl := spelling (List.mem_singleton.mp listed)
    have passed : seen false ('-' :: '=' :: first) = seen false ('=' :: first) :=
      seen_single (.inr rfl) (List.prefix_cons_inj '=' |>.mpr starts) ink
    exact passed.trans (seen_plain rfl)
  case slashEq =>
    obtain rfl := spelling (List.mem_singleton.mp listed)
    have passed : seen false ('/' :: '=' :: first) = seen false ('=' :: first) :=
      seen_single (.inl rfl) (List.prefix_cons_inj '=' |>.mpr starts) ink
    exact passed.trans (seen_plain rfl)
  case lparen | lbracket | lbrace =>
    obtain rfl := spelling (List.mem_singleton.mp listed)
    exact seen_mark (marks_opener (by decide)) rfl
  case rparen | rbracket | rbrace =>
    obtain rfl := spelling (List.mem_singleton.mp listed)
    exact seen_mark (marks_closer (by decide)) rfl
  case bangEq =>
    rcases List.mem_cons.mp listed with same | listed
    · obtain rfl := spelling same
      exact seen_plains rfl
    · obtain rfl := spelling (List.mem_singleton.mp listed)
      exact seen_plains rfl
  all_goals
    obtain rfl := spelling (List.mem_singleton.mp listed)
    exact seen_plains rfl

/-- A token whose spellings are words and symbols that are passed over. -/
theorem seen_wordless (listed : String.ofList text ∈ Lexer.fixedSpellings kind)
    (word : ¬∃ c cs, text = c :: cs ∧ isNameStart c = true)
    (shape : (Lexer.fixedSpellings kind).all (fun s => s.toList.head?.any isNameStart ||
      (s.toList.all isPlain && !kind.counts)) = true) :
    seen false (text ++ first) = behind (counted kind) (seen false first) := by
  have known := List.all_eq_true.mp shape _ listed
  rw [String.toList_ofList, Bool.or_eq_true, Bool.and_eq_true, Bool.not_eq_true'] at known
  rcases known with begins | ⟨plain, uncounted⟩
  · cases text with
    | nil => cases begins
    | cons c cs => exact absurd ⟨c, cs, rfl, by simpa using begins⟩ word
  · rw [seen_plains plain, counted, uncounted]
    rfl

/-- A token that is spelled as long as it can be is seen in any line for what it is. -/
theorem seen_spelled (spelled : Spells kind text) (starts : first <+: rest)
    (longest : ∀ other word, Spells other word → word <+: text ++ rest → word.length ≤ text.length)
    (ink : ∀ skipped tail, Trivia skipped tail → skipped ++ tail ≠ text ++ rest) :
    seen false (text ++ first) = behind (counted kind) (seen false first) := by
  have digitsPlain {ds : List Char} (digits : ∀ d ∈ ds, Number.isDigit d = true) : ds.all isPlain = true :=
    List.all_eq_true.mpr fun d mem => isPlain_of_isDigit (digits d mem)
  by_cases word : ∃ c cs, text = c :: cs ∧ isNameStart c = true
  · obtain ⟨c, cs, rfl, start⟩ := word
    exact seen_word start spelled starts longest
  · cases spelled with
    | fixed listed =>
      cases kind with
      | punct p => exact seen_punct listed starts ink
      | keyword k => exact seen_wordless listed word (by cases k <;> decide)
      | bool b => exact seen_wordless listed word (by cases b <;> decide)
      | number | string | ident => cases listed
    | name start => exact absurd ⟨_, _, rfl, start⟩ word
    | whole begun digits => exact seen_plains (digitsPlain digits)
    | fraction begun digits goes decimals =>
      apply seen_plains
      rw [List.all_append, digitsPlain digits, List.all_cons, digitsPlain decimals]
      decide
    | string isQuote stands => exact seen_string isQuote stands

theorem seenText_token (spelled : Spells kind text)
    (longest : ∀ other word, Spells other word → word <+: text ++ rest → word.length ≤ text.length)
    (ink : ∀ skipped tail, Trivia skipped tail → skipped ++ tail ≠ text ++ rest) :
    seenText false (text ++ rest) = onFirst (counted kind) (seenText false rest) := by
  apply seenText_piece (Lexer.Spells.solid spelled).1
  intro first starts _
  exact seen_spelled spelled starts longest ink

end Spelled

end Lines

/-! ### Whole texts -/

/-- The tokens on a line that can matter for its depth. -/
def tokensOn (tokens : List Token) (line : Nat) : List TokenKind :=
  (tokens.filter fun t => t.pos.line = line ∧ t.kind.counts).map (·.kind)

theorem tokensOn_cons (t : Token) (tokens : List Token) (line : Nat) :
    tokensOn (t :: tokens) line = (if t.pos.line = line then counted t.kind else []) ++ tokensOn tokens line := by
  by_cases here : t.pos.line = line
  · cases counts : t.kind.counts <;> simp [tokensOn, counted, here, counts]
  · simp [tokensOn, here]

theorem getD_onFirst (tokens : List TokenKind) {lines : List (List TokenKind)} (some : lines ≠ []) (i : Nat) :
    (onFirst tokens lines).getD i [] = (if i = 0 then tokens else []) ++ lines.getD i [] := by
  cases lines with
  | nil => exact absurd rfl some
  | cons first rest => cases i <;> simp [onFirst]

theorem getD_replicate_append (n : Nat) (lines : List (List TokenKind)) (i : Nat) :
    (List.replicate n [] ++ lines).getD i [] = if i < n then [] else lines.getD (i - n) [] := by
  rw [List.getD_eq_getElem?_getD, List.getElem?_append, List.length_replicate]
  split
  case isTrue before => simp [before]
  case isFalse => rw [List.getD_eq_getElem?_getD]

theorem seenText_ne_nil (inComment : Bool) (cs : List Char) : seenText inComment cs ≠ [] := by
  rw [seenText]
  cases pieces : Text.splitLines cs with
  | nil => exact absurd pieces (Text.splitLines_ne_nil cs)
  | cons => exact List.cons_ne_nil _ _

/-- The tokens of a text without faults are on each line those that are seen there. -/
theorem tokensOn_cut {before ahead : List Char} {tokens : List Token} {faults : List Diagnostic} {stop : Pos}
    (cut : Cut before ahead tokens faults stop) (clean : faults = []) (line : Nat) :
    tokensOn tokens line = if line < 1 + before.count '\n' then []
      else (seenText false ahead).getD (line - (1 + before.count '\n')) [] := by
  induction cut with
  | @stop before =>
    have nothing : seenText false [] = [[]] := by
      rw [seenText, Text.splitLines, seenLines, seen_nil]
      rfl
    rw [nothing]
    cases line - (1 + before.count '\n') <;> simp [tokensOn]
  | @trivia before text rest tokens faults stop skipped more ih =>
    rw [ih clean, seenText_trivia skipped, getD_replicate_append, List.count_append]
    by_cases earlier : line < 1 + before.count '\n'
    · rw [if_pos earlier, if_pos (by omega)]
    · rw [if_neg earlier]
      by_cases within : line - (1 + before.count '\n') < text.count '\n'
      · rw [if_pos within, if_pos (by omega)]
      · rw [if_neg within, if_neg (by omega), Nat.sub_sub, Nat.add_assoc]
  | @token before text rest kind tokens faults stop spelled longest ink more ih =>
    have oneLine : (before ++ text).count '\n' = before.count '\n' := by
      rw [List.count_append, List.count_eq_zero.mpr (Lexer.Spells.solid spelled).1, Nat.add_zero]
    have place : (Pos.behind before).line = 1 + before.count '\n' := rfl
    rw [tokensOn_cons, place, ih clean, oneLine, seenText_token spelled longest ink,
      getD_onFirst _ (seenText_ne_nil false rest)]
    by_cases earlier : line < 1 + before.count '\n'
    · rw [if_pos earlier, if_pos earlier, if_neg (by omega)]
      rfl
    · rw [if_neg earlier, if_neg earlier]
      by_cases here : 1 + before.count '\n' = line
      · rw [if_pos here, if_pos (by omega)]
      · rw [if_neg here, if_neg (by omega)]
  | fault => cases clean

theorem getD_seenText {source : String} {s : TokenStream} (accepted : Lexer.tokenize source = .ok s) (i : Nat) :
    (seenText false source.toList).getD i [] = tokensOn s.tokens (i + 1) := by
  rw [tokensOn_cut (Lexer.cut_of_tokenize accepted) rfl, if_neg (by simp), List.count_nil, Nat.add_zero,
    Nat.add_sub_cancel]

/-! ### The formatter -/

/-- What the formatter finds on lines, given whether a comment is open in front of them. -/
def scanLines (inComment : Bool) : List (List Char) → List (List Placed)
  | [] => []
  | raw :: rest =>
    let (ms, comment) := marks inComment true (Text.trim raw)
    ms :: scanLines comment rest

/-- Lines at the depth that their marks give them. -/
def layLines (depth : Nat) : List (List Char × List Placed) → List (List Char)
  | [] => []
  | (raw, ms) :: rest =>
    let line := Text.trim raw
    let depth' := ((depth : Int) + (shape ms).delta).toNat
    (if line = [] then [] else indent (depth - (shape ms).dedent) ++ line) :: layLines depth' rest

/-- The formatter knows nothing of a text but its lines and what it finds on them. -/
theorem formatLines_eq (depth : Nat) (inComment : Bool) (lines : List (List Char)) :
    formatLines depth inComment lines = layLines depth (lines.zip (scanLines inComment lines)) := by
  induction lines generalizing depth inComment with
  | nil => rfl
  | cons raw rest ih =>
    rw [formatLines, scanLines, List.zip_cons_cons, layLines]
    split
    case isTrue empty =>
      have still : ((depth : Int) + (shape []).delta).toNat = depth := by simp [shape]
      simp only [empty, marks_empty, ih, still]
    case isFalse => simp only [ih]

theorem kinds_scanLines (inComment : Bool) (lines : List (List Char)) :
    (scanLines inComment lines).map kinds = seenLines inComment lines := by
  induction lines generalizing inComment with
  | nil => rfl
  | cons raw rest ih =>
    rw [scanLines, seenLines, ← seen_trim, List.map_cons, ih]
    rfl

theorem seenLines_withoutReturn (inComment : Bool) (ended last : List (List Char)) :
    seenLines inComment (ended.map Text.withoutReturn ++ last) = seenLines inComment (ended ++ last) := by
  induction ended generalizing inComment with
  | nil => rfl
  | cons line ended ih =>
    rw [List.map_cons, List.cons_append, List.cons_append, seenLines, seenLines, seen_withoutReturn,
      ih]

theorem seenLines_append_empty (inComment : Bool) (ended : List (List Char)) :
    seenLines inComment (ended ++ [[]]) = seenLines inComment ended ++ [[]] := by
  induction ended generalizing inComment with
  | nil => simp [seenLines, seen_nil]
  | cons line ended ih => simp [seenLines, ih]

/-- The line that a newline at the end begins has nothing on it. -/
theorem getD_seenLines_lines (cs : List Char) (i : Nat) :
    (seenLines false (Text.lines cs)).getD i [] = (seenText false cs).getD i [] := by
  obtain ⟨ended, last, pieces⟩ : ∃ ended last, Text.splitLines cs = ended ++ [last] :=
    ⟨_, _, (List.dropLast_append_getLast (Text.splitLines_ne_nil cs)).symm⟩
  rw [Text.lines_eq pieces, seenLines_withoutReturn, seenText, pieces]
  split
  case isTrue empty =>
    rw [List.append_nil, empty, seenLines_append_empty, List.getD_eq_getElem?_getD, List.getD_eq_getElem?_getD,
      List.getElem?_append]
    split
    case isTrue => rfl
    case isFalse outside =>
      rw [List.getElem?_eq_none (by omega)]
      cases i - (seenLines false ended).length <;> rfl
  case isFalse => rfl

theorem kinds_getD (found : List (List Placed)) (i : Nat) : kinds (found.getD i []) = (found.map kinds).getD i [] := by
  rw [List.getD_eq_getElem?_getD, List.getD_eq_getElem?_getD, List.getElem?_map]
  cases found[i]? <;> rfl

/-- Of a text that the lexer accepts, the formatter finds on each line the brackets and block keywords that the lexer
    reports there, in order, and on what it finds its result depends. -/
theorem scanned_marks_are_tokens {source : String} {s : TokenStream} (accepted : Lexer.tokenize source = .ok s) :
    (∀ i, kinds ((scanLines false (Text.lines source.toList)).getD i []) = tokensOn s.tokens (i + 1)) ∧
    formatLines 0 false (Text.lines source.toList) =
      layLines 0 ((Text.lines source.toList).zip (scanLines false (Text.lines source.toList))) := by
  refine ⟨fun i => ?_, formatLines_eq 0 false _⟩
  calc kinds ((scanLines false (Text.lines source.toList)).getD i [])
    _ = (seenLines false (Text.lines source.toList)).getD i [] := by rw [kinds_getD, kinds_scanLines]
    _ = (seenText false source.toList).getD i [] := getD_seenLines_lines _ i
    _ = tokensOn s.tokens (i + 1) := getD_seenText accepted i

/-- Strings with quotes and signs of comments in them, both kinds of comments, operators made of such signs, and a
    word right behind a number. -/
def patchwork : String :=
  "f(\"*/ (\\\"]\", '--') -- end )\r\n 2do /* then [\r\n ' */ [x*/ /**/ y -=-z] /=/* \" */elseif// do\n\x7b_end\x7d"

theorem patchwork_marks : ∃ s, Lexer.tokenize patchwork = .ok s ∧
    kinds ((scanLines false (Text.lines patchwork.toList)).getD 0 []) = [.punct .lparen, .punct .rparen] ∧
    kinds ((scanLines false (Text.lines patchwork.toList)).getD 1 []) = [.keyword .doKw] ∧
    kinds ((scanLines false (Text.lines patchwork.toList)).getD 2 []) =
      [.punct .lbracket, .punct .rbracket, .keyword .elseifKw] ∧
    kinds ((scanLines false (Text.lines patchwork.toList)).getD 3 []) = [.punct .lbrace, .punct .rbrace] := by
  have read : (Lexer.scan .start patchwork.toList).faults.isEmpty = true ∧
      [1, 2, 3, 4].map (tokensOn (Lexer.scan .start patchwork.toList).tokens) =
        [[.punct .lparen, .punct .rparen], [.keyword .doKw], [.punct .lbracket, .punct .rbracket, .keyword .elseifKw],
          [.punct .lbrace, .punct .rbrace]] := by decide +kernel
  obtain ⟨clean, tokens⟩ := read
  have accepted : Lexer.tokenize patchwork =
      .ok ⟨(Lexer.scan .start patchwork.toList).tokens, (Lexer.scan .start patchwork.toList).stop⟩ := by
    rw [Lexer.tokenize, if_pos clean]
  have found := (scanned_marks_are_tokens accepted).1
  simp only [List.map_cons, List.map_nil, List.cons.injEq, and_true] at tokens
  obtain ⟨first, second, third, fourth⟩ := tokens
  exact ⟨_, accepted, (found 0).trans first, (found 1).trans second, (found 2).trans third, (found 3).trans fourth⟩

end Layout

end Sketch
