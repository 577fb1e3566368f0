import Mathlib.Data.List.TakeWhile
import Sketch.Proofs.Token.Spelling

/-!
What a text is made of: trivia, spellings of tokens and faults, one behind the other, with nothing left over. Each
token and each fault stands at its place. The lexer cuts every text that way.
-/

namespace Sketch

/-- The place behind a text. -/
def Pos.behind (before : List Char) : Pos :=
  ⟨1 + before.count '\n', 1 + (before.reverse.takeWhile (· ≠ '\n')).length⟩

namespace Lexer

/-- A blank or a comment, in front of the rest of a text. -/
inductive Trivia : List Char → List Char → Prop
  | blank {c : Char} {rest : List Char} (space : isSpace c = true) : Trivia [c] rest
  | line {mark : Char} {body rest : List Char} (isMark : mark = '/' ∨ mark = '-') (inside : '\n' ∉ body)
      (ends : rest = [] ∨ rest.head? = some '\n') : Trivia (mark :: mark :: body) rest
  | block {body rest : List Char} (inside : ¬['*', '/'] <:+: body) :
      Trivia ('/' :: '*' :: (body ++ ['*', '/'])) rest
  | openBlock {body : List Char} (inside : ¬['*', '/'] <:+: body) : Trivia ('/' :: '*' :: body) []

/-- The inside of a string. Only an escape takes in a newline or the quote. -/
inductive Runs (quote : Char) : List Char → Prop
  | nil : Runs quote []
  | char {c : Char} {body : List Char} (newline : c ≠ '\n') (close : c ≠ quote) (escape : c ≠ '\\')
      (rest : Runs quote body) : Runs quote (c :: body)
  | escape {e : Char} {body : List Char} (rest : Runs quote body) : Runs quote ('\\' :: e :: body)

/-- The operators that have no one-character form. -/
def pairs : List (Char × Char) := [('~', '='), ('&', '&'), ('|', '|')]

/-- What can be wrong in a text: the fault, what stands in front of it, what is given up, and the rest. -/
inductive Wrong : Fault → List Char → List Char → List Char → Prop
  | stray {c : Char} {rest : List Char} (ink : isSpace c = false)
      (unknown : ∀ kind text, ¬Spells kind (c :: text)) : Wrong (.unexpectedChar c) [] [c] rest
  | half {c second : Char} {rest : List Char} (pair : (c, second) ∈ pairs) (other : rest.head? ≠ some second) :
      Wrong (.halfOperator (String.ofList [c, second]) (String.ofList [c])) [] [c] rest
  | openString {quote : Char} {body rest : List Char} (isQuote : quote = '"' ∨ quote = '\'')
      (runs : Runs quote body) (ends : rest = [] ∨ rest.head? = some '\n') :
      Wrong .unterminatedString [] (quote :: body) rest
  | openEscape {quote : Char} {body : List Char} (isQuote : quote = '"' ∨ quote = '\'')
      (runs : Runs quote body) : Wrong .unterminatedString [] (quote :: (body ++ ['\\'])) []
  | badEscape {quote e : Char} {body content more rest : List Char} (isQuote : quote = '"' ∨ quote = '\'')
      (stands : Stands quote body content) (unknown : ∀ d, (e, d) ∉ escapes) (runs : Runs quote more) :
      Wrong (.unknownEscape (leadByteChar e)) (quote :: (body ++ ['\\']))
        (quote :: (body ++ '\\' :: e :: (more ++ [quote]))) rest

/-- How the rest of a text is cut into its tokens and faults. A token is spelled as long as it can be. -/
inductive Cut : List Char → List Char → List Token → List Diagnostic → Pos → Prop
  | stop {before : List Char} : Cut before [] [] [] (.behind before)
  | trivia {before text rest : List Char} {tokens : List Token} {faults : List Diagnostic} {stop : Pos}
      (skipped : Trivia text rest) (more : Cut (before ++ text) rest tokens faults stop) :
      Cut before (text ++ rest) tokens faults stop
  | token {before text rest : List Char} {kind : TokenKind} {tokens : List Token} {faults : List Diagnostic}
      {stop : Pos} (spelled : Spells kind text)
      (longest : ∀ other word, Spells other word → word <+: text ++ rest → word.length ≤ text.length)
      (ink : ∀ skipped tail, Trivia skipped tail → skipped ++ tail ≠ text ++ rest)
      (more : Cut (before ++ text) rest tokens faults stop) :
      Cut before (text ++ rest) (⟨kind, .behind before⟩ :: tokens) faults stop
  | fault {before text inner rest : List Char} {fault : Fault} {tokens : List Token}
      {faults : List Diagnostic} {stop : Pos} (wrong : Wrong fault inner text rest)
      (more : Cut (before ++ text) rest tokens faults stop) :
      Cut before (text ++ rest) tokens (⟨fault, .behind (before ++ inner)⟩ :: faults) stop

/-- A lexeme that is what it is taken for. -/
def Lexeme.IsPiece (lex : Lexeme) : Prop :=
  match lex.outcome with
  | .token kind => Spells kind lex.text
  | .comment => Trivia lex.text lex.rest
  | .fault fault before => Wrong fault before lex.text lex.rest

/-! ### Places -/

theorem behind_after (before : List Char) (c : Char) : (Pos.behind before).after c = .behind (before ++ [c]) := by
  by_cases newline : c = '\n'
  · simp [Pos.after, Pos.behind, newline]
    omega
  · simp [Pos.after, Pos.behind, newline]
    omega

/-- A place that is moved on over a text is the place behind it. -/
theorem behind_afterAll (before text : List Char) : (Pos.behind before).afterAll text = .behind (before ++ text) := by
  induction text generalizing before with
  | nil => rw [List.append_nil, Pos.afterAll_nil]
  | cons c text ih =>
    rw [Pos.afterAll_cons, behind_after, ih, List.append_assoc, List.singleton_append]

/-! ### Trivia -/

variable {c quote : Char} {body rest text ending : List Char}

/-- A comment that goes on does not close with its next character. -/
theorem not_infix_of_unclosed (unclosed : ∀ more, c = '*' → rest = '/' :: more → False) (within : body <+: rest)
    (inside : ¬['*', '/'] <:+: body) : ¬['*', '/'] <:+: c :: body := by
  rw [List.infix_cons_iff]
  rintro (first | later)
  · obtain ⟨tail, eq⟩ := first
    cases eq
    obtain ⟨more, rfl⟩ := within
    exact unclosed _ rfl rfl
  · exact inside later

/-- A comment is closed by the first closing sign, or reaches the end of the text. -/
theorem blockComment_cases (cs : List Char) :
    (∃ body, (blockComment cs).1 = body ++ ['*', '/'] ∧ ¬['*', '/'] <:+: body) ∨
      (¬['*', '/'] <:+: (blockComment cs).1 ∧ (blockComment cs).2 = []) := by
  fun_induction blockComment cs with
  | case1 => exact .inr ⟨by simp, rfl⟩
  | case2 rest => exact .inl ⟨[], rfl, by simp⟩
  | case3 c rest unclosed text after read ih =>
    have whole : text ++ after = rest := by simpa [read] using blockComment_append rest
    simp only [read] at ih
    rcases ih with ⟨body, closed, inside⟩ | ⟨inside, ended⟩
    · left
      have within : body <+: rest := by
        rw [← whole, closed, List.append_assoc]
        exact List.prefix_append body _
      exact ⟨c :: body, congrArg (c :: ·) closed, not_infix_of_unclosed unclosed within inside⟩
    · right
      exact ⟨not_infix_of_unclosed unclosed ⟨after, whole⟩ inside, ended⟩

theorem lineComment_trivia {mark : Char} (isMark : mark = '/' ∨ mark = '-') (cs : List Char) :
    Trivia (lineComment (mark :: mark :: cs)).text (lineComment (mark :: mark :: cs)).rest := by
  have ink : mark ≠ '\n' := by rcases isMark with rfl | rfl <;> decide
  simp only [lineComment, ne_eq, ink, not_false_eq_true, decide_true, List.takeWhile_cons_of_pos,
    List.dropWhile_cons_of_pos]
  apply Trivia.line isMark
  · intro newline
    simpa using List.mem_takeWhile_imp newline
  · cases ended : cs.dropWhile (fun c => decide ¬c = '\n') with
    | nil => exact .inl rfl
    | cons d rest =>
      have stops := List.head?_dropWhile_not (fun c => decide ¬c = '\n') cs
      rw [ended, List.head?_cons] at stops
      exact .inr (by simpa using stops)

theorem blockComment_trivia (cs : List Char) : Trivia ('/' :: '*' :: (blockComment cs).1) (blockComment cs).2 := by
  rcases blockComment_cases cs with ⟨body, closed, inside⟩ | ⟨inside, ended⟩
  · rw [closed]
    exact .block inside
  · rw [ended]
    exact .openBlock inside

/-- Where trivia begins that is no blank, a comment is read. -/
theorem lexeme_of_trivia {cs : List Char} (trivia : Trivia text rest)
    (here : text ++ rest = c :: cs) (ink : isSpace c = false) : (lexeme c cs).outcome = .comment := by
  cases trivia with
  | blank space =>
    cases here
    rw [ink] at space
    cases space
  | line isMark =>
    cases here
    rcases isMark with rfl | rfl <;> rfl
  | block =>
    cases here
    rfl
  | openBlock =>
    cases here
    rfl

/-! ### Strings -/

/-- What ends the inside of a string. -/
inductive Ends (quote : Char) : Bool → List Char → List Char → Prop
  | close {rest : List Char} : Ends quote true [quote] rest
  | line {rest : List Char} (ends : rest = [] ∨ rest.head? = some '\n') : Ends quote false [] rest
  | escape : Ends quote false ['\\'] []

/-- What is read behind a quote. Of the unknown escapes the first one is named. -/
structure StringBody.Fits (quote : Char) (b : StringBody) (body ending : List Char) : Prop where
  text : b.text = body ++ ending
  runs : Runs quote body
  ends : Ends quote b.closed ending b.rest
  stands : b.closed = true → b.badEscape = none → Stands quote body b.content
  bad : ∀ before shown, b.badEscape = some (before, shown) → ∃ inner content more, before = inner ++ ['\\'] ∧
    Stands quote inner content ∧ (∀ d, (shown, d) ∉ escapes) ∧ Runs quote more ∧
    body = inner ++ '\\' :: shown :: more

theorem StringBody.Fits.nil {closed : Bool}
    (ends : Ends quote closed ending rest) : Fits quote ⟨[], none, closed, ending, rest⟩ [] ending := by
  refine ⟨rfl, .nil, ends, fun _ _ => .nil, ?_⟩
  intro before shown found
  cases found

theorem StringBody.Fits.prepend {b : StringBody}
    (fits : b.Fits quote body ending) (read content : List Char) (runs : Runs quote (read ++ body))
    (stands : ∀ {body more}, Stands quote body more → Stands quote (read ++ body) (content ++ more)) :
    (b.prepend read content).Fits quote (read ++ body) ending := by
  refine ⟨?_, runs, fits.ends, fun closed known => stands (fits.stands closed ?_), ?_⟩
  · rw [List.append_assoc, ← fits.text]
    rfl
  · exact Option.map_eq_none_iff.mp known
  · intro before shown found
    obtain ⟨⟨inner, _⟩, found, eq⟩ := Option.map_eq_some_iff.mp found
    cases eq
    obtain ⟨inner, content, more, rfl, stood, unknown, after, rfl⟩ := fits.bad _ _ found
    exact ⟨_, _, more, (List.append_assoc ..).symm, stands stood, unknown, after, (List.append_assoc ..).symm⟩

/-- What is read behind a quote is the inside of a string. -/
theorem stringBody_fits (quote : Char) (cs : List Char) :
    ∃ body ending, (stringBody quote cs).Fits quote body ending := by
  fun_induction stringBody quote cs with
  | case1 => exact ⟨[], [], .nil (.line (.inl rfl))⟩
  | case2 | case5 => exact ⟨[], [], .nil (.line (.inr rfl))⟩
  | case3 | case6 => exact ⟨[], _, .nil .close⟩
  | case4 c newline close =>
    by_cases escape : c = '\\'
    · subst escape
      refine ⟨[], _, rfl, .nil, .escape, ?_, ?_⟩
      · intro closed
        cases closed
      · intro before shown found
        cases found
    · have ended : StringBody.Fits quote ⟨[], none, false, [], []⟩ [] [] := .nil (.line (.inl rfl))
      exact ⟨[c], [], ended.prepend [c] [c] (.char newline close escape .nil) (.char newline close escape)⟩
  | case7 e rest body d escape newline close ih =>
    obtain ⟨inner, ending, fits⟩ := ih
    exact ⟨_, ending, fits.prepend ['\\', e] [d] (.escape fits.runs) (.escape (escaped?_eq_some_iff.mp escape))⟩
  | case8 e rest body escape newline close _ ih =>
    obtain ⟨inner, ending, fits⟩ := ih
    refine ⟨'\\' :: e :: inner, ending, congrArg (['\\', e] ++ ·) fits.text, .escape fits.runs, fits.ends, ?_, ?_⟩
    · intro _ known
      cases known
    · intro before shown found
      cases found
      refine ⟨[], [], inner, rfl, .nil, ?_, fits.runs, rfl⟩
      intro d listed
      rw [escaped?_eq_some_iff.mpr listed] at escape
      cases escape
  | case9 c e rest newline close escape ih =>
    obtain ⟨inner, ending, fits⟩ := ih
    exact ⟨_, ending, fits.prepend [c] [c] (.char newline close escape fits.runs) (.char newline close escape)⟩

/-! ### Any lexeme -/

/-- A string is a token, or it is not closed, or one of its escapes means nothing. -/
theorem stringLexeme_piece (isQuote : quote = '"' ∨ quote = '\'') (cs : List Char) :
    (stringLexeme quote cs).IsPiece := by
  obtain ⟨body, ending, fits⟩ := stringBody_fits quote cs
  rw [Lexeme.IsPiece, stringLexeme]
  generalize stringBody quote cs = b at fits
  obtain ⟨content, badEscape, closed, text, rest⟩ := b
  obtain ⟨rfl, runs, ends, stands, bad⟩ := fits
  cases ends with
  | line ends =>
    rw [List.append_nil]
    exact .openString isQuote runs ends
  | escape => exact .openEscape isQuote runs
  | close =>
    cases badEscape with
    | none => exact .string isQuote (stands rfl rfl)
    | some pair =>
      obtain ⟨before, shown⟩ := pair
      obtain ⟨inner, content, more, rfl, stood, unknown, after, rfl⟩ := bad _ _ rfl
      rw [List.append_assoc]
      exact .badEscape isQuote stood unknown after

/-- What is read as a number is one. -/
theorem numberLexeme_piece (digit : Number.isDigit c = true) (cs : List Char) : (numberLexeme (c :: cs)).IsPiece := by
  have digits (ds : List Char) : ∀ d ∈ ds.takeWhile Number.isDigit, Number.isDigit d = true :=
    fun d mem => List.mem_takeWhile_imp mem
  have begun : (c :: cs).takeWhile Number.isDigit ≠ [] := by simp [digit]
  by_cases fraction :
      ∃ d rest, (c :: cs).dropWhile Number.isDigit = '.' :: d :: rest ∧ Number.isDigit d = true
  · obtain ⟨d, rest, point, decimal⟩ := fraction
    have goes : (d :: rest).takeWhile Number.isDigit ≠ [] := by simp [decimal]
    rw [numberLexeme_of_fraction point decimal]
    simpa [Lexeme.IsPiece, Number.Numeral.text] using Spells.fraction begun (digits _) goes (digits _)
  · rw [numberLexeme_of_whole fraction]
    simpa [Lexeme.IsPiece, Number.Numeral.text] using Spells.whole begun (digits _)

theorem wordLexeme_piece (start : isNameStart c = true) (cs : List Char) : (wordLexeme (c :: cs)).IsPiece := by
  have word : (c :: cs).takeWhile isNamePart = c :: cs.takeWhile isNamePart := by
    simp [isNamePart, start]
  rw [wordLexeme, word]
  exact spells_ofWord start fun d mem => List.mem_takeWhile_imp mem

theorem punct_piece {p : Punct} (one : Spells (.punct p) text) (rest : List Char) : (punct p text rest).IsPiece := one

theorem withEq_piece {alone assigned : TokenKind} (one : Spells alone [c])
    (two : Spells assigned [c, '=']) (cs : List Char) : (withEq c alone assigned cs).IsPiece := by
  unfold withEq
  split
  · exact two
  · exact one

theorem pairOnly_piece {second : Char} {kind : TokenKind} (two : Spells kind [c, second])
    (pair : (c, second) ∈ pairs) (cs : List Char) : (pairOnly c second kind cs).IsPiece := by
  by_cases follows : cs.head? = some second
  · obtain ⟨cs, rfl⟩ := List.head?_eq_some_iff.mp follows
    simp only [pairOnly, if_pos]
    exact two
  · rw [pairOnly_eq follows]
    exact .half pair follows

/-- No spelling begins with a character that begins no lexeme. -/
theorem not_spells_of_other (other : c ∉ '-' :: '/' :: symbols) (noQuote : ¬(c = '"' ∨ c = '\''))
    (noDigit : ¬Number.isDigit c = true) (noStart : ¬isNameStart c = true) (kind : TokenKind)
    (text : List Char) : ¬Spells kind (c :: text) := by
  intro spelled
  generalize whole : c :: text = word at spelled
  cases spelled with
  | fixed listed =>
    subst whole
    have known : (fixedSpellings kind).all (fun s => s.toList.head?.all fun d =>
        isNameStart d || ('-' :: '/' :: symbols).contains d) = true := by
      cases kind with
      | keyword k => cases k <;> decide
      | punct p => cases p <;> decide
      | bool b => cases b <;> decide
      | number | string | ident => rfl
    have first := List.all_eq_true.mp known _ listed
    simp only [String.toList_ofList, List.head?_cons, Option.all_some, Bool.or_eq_true,
      List.contains_iff_mem] at first
    rcases first with start | symbol
    · exact noStart start
    · exact other symbol
  | name start =>
    cases whole
    exact noStart start
  | whole begun digits =>
    subst whole
    exact noDigit (digits c List.mem_cons_self)
  | @fraction ds fs begun digits =>
    cases ds with
    | nil => exact begun rfl
    | cons d ds =>
      cases whole
      exact noDigit (digits c List.mem_cons_self)
  | string isQuote =>
    cases whole
    exact noQuote isQuote

/-- Every lexeme is what it is taken for. -/
theorem lexeme_piece (ink : isSpace c = false) (cs : List Char) : (lexeme c cs).IsPiece := by
  by_cases special : c ∈ '-' :: '/' :: symbols
  · rw [List.mem_cons, List.mem_cons] at special
    rcases special with rfl | rfl | symbol
    · by_cases line : cs.head? = some '-'
      · obtain ⟨cs, rfl⟩ := List.head?_eq_some_iff.mp line
        exact lineComment_trivia (.inr rfl) cs
      · rw [lexeme_minus, if_neg line]
        exact withEq_piece (.fixed (by decide)) (.fixed (by decide)) cs
    · by_cases line : cs.head? = some '/'
      · obtain ⟨cs, rfl⟩ := List.head?_eq_some_iff.mp line
        exact lineComment_trivia (.inl rfl) cs
      by_cases block : cs.head? = some '*'
      · rw [lexeme_slash, if_neg line, if_pos block]
        exact blockComment_trivia cs.tail
      · rw [lexeme_slash, if_neg line, if_neg block]
        exact withEq_piece (.fixed (by decide)) (.fixed (by decide)) cs
    · simp only [symbols, List.mem_cons, List.not_mem_nil, or_false] at symbol
      rcases symbol with rfl | rfl | rfl | rfl | rfl | rfl | rfl | rfl | rfl | rfl | rfl | rfl | rfl | rfl | rfl |
        rfl | rfl | rfl | rfl | rfl
      all_goals first
        | exact punct_piece (.fixed (by decide)) cs
        | exact withEq_piece (.fixed (by decide)) (.fixed (by decide)) cs
        | exact pairOnly_piece (.fixed (by decide)) (by decide) cs
  · by_cases isQuote : c = '"' ∨ c = '\''
    · rw [lexeme_quote isQuote]
      exact stringLexeme_piece isQuote cs
    by_cases digit : Number.isDigit c = true
    · rw [lexeme_digit digit]
      exact numberLexeme_piece digit cs
    by_cases start : isNameStart c = true
    · rw [lexeme_name start]
      exact wordLexeme_piece start cs
    · rw [lexeme_other special, if_neg isQuote, if_neg digit, if_neg start]
      exact .stray ink (not_spells_of_other special isQuote digit start)

/-! ### Whole texts -/

/-- A scan cuts a text as it is made up. -/
theorem cut_scan (before ahead : List Char) :
    Cut before ahead (scan (.behind before) ahead).tokens (scan (.behind before) ahead).faults
      (scan (.behind before) ahead).stop := by
  match ahead with
  | [] =>
    simp only [scan]
    exact .stop
  | c :: cs =>
    by_cases space : isSpace c = true
    · rw [scan_space _ space, behind_after]
      exact .trivia (.blank space) (cut_scan (before ++ [c]) cs)
    have ink : isSpace c = false := Bool.eq_false_iff.mpr space
    have whole := (lexeme_cuts c cs).whole
    have piece := lexeme_piece ink cs
    -- Even a fault gives up at least one character, so that the scan goes on with less text.
    have shorter := lexeme_rest_lt c cs
    have more := cut_scan (before ++ (lexeme c cs).text) (lexeme c cs).rest
    rw [scan_lexeme _ ink, behind_afterAll]
    rw [Lexeme.IsPiece] at piece
    split at piece
    case h_1 kind token =>
      rw [token, ← whole]
      refine .token piece ?_ ?_ more
      · rintro other word spelled ⟨rest, eq⟩
        exact lexeme_longest spelled (whole.symm.trans eq.symm)
      · intro skipped tail trivia eq
        rw [lexeme_of_trivia trivia (eq.trans whole) ink] at token
        cases token
    case h_2 comment =>
      rw [comment, ← whole]
      exact .trivia piece more
    case h_3 fault inner wrong =>
      rw [wrong, ← whole]
      simp only [Scan.behind, behind_afterAll]
      exact .fault piece more
termination_by ahead.length
decreasing_by
  · exact Nat.lt_succ_self cs.length
  · exact shorter

/-- A text that is accepted is cut without faults. -/
theorem cut_of_tokenize {source : String} {s : TokenStream} (accepted : tokenize source = .ok s) :
    Cut [] source.toList s.tokens [] s.stop := by
  have cut : Cut [] source.toList (scan .start source.toList).tokens (scan .start source.toList).faults
    (scan .start source.toList).stop := cut_scan [] source.toList
  rw [tokenize] at accepted
  split at accepted
  case isTrue clean =>
    cases accepted
    rwa [List.isEmpty_iff.mp clean] at cut
  case isFalse => cases accepted

/-- Tokens stand on lines in order. -/
theorem Cut.sorted {before ahead : List Char} {tokens : List Token} {faults : List Diagnostic} {stop : Pos}
    (cut : Cut before ahead tokens faults stop) : tokens.Pairwise (·.pos.line ≤ ·.pos.line) ∧
      ∀ t ∈ tokens, 1 + before.count '\n' ≤ t.pos.line := by
  have later {before text : List Char} {tokens : List Token}
      (behind : ∀ t ∈ tokens, 1 + (before ++ text).count '\n' ≤ t.pos.line) :
      ∀ t ∈ tokens, 1 + before.count '\n' ≤ t.pos.line := by
    intro t mem
    have bound := behind t mem
    rw [List.count_append] at bound
    omega
  induction cut with
  | stop => exact ⟨.nil, List.forall_mem_nil _⟩
  | trivia _ _ ih | fault _ _ ih =>
    exact ⟨ih.1, later ih.2⟩
  | token _ _ _ _ ih =>
    have behind := later ih.2
    exact ⟨.cons behind ih.1, List.forall_mem_cons.mpr ⟨Nat.le_refl _, behind⟩⟩

/-- Every text is cut into trivia, tokens and faults. The tokens and the place of the end are what is read of
    a text without faults; of any other it is the faults. -/
theorem tokenize_cut (source : String) :
    ∃ tokens faults stop, Cut [] source.toList tokens faults stop ∧
      tokenize source = if faults = [] then .ok ⟨tokens, stop⟩ else .error faults := by
  refine ⟨_, _, _, cut_scan [] source.toList, ?_⟩
  simp only [tokenize, List.isEmpty_iff]
  rfl

end Lexer

end Sketch
