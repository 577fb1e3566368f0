import Sketch.Proofs.Syntax.Relocation
import Sketch.Proofs.Token.Pieces
import Sketch.Text.Blank

/-!
Reading a text whose lines have other blanks at their ends. A text without faults keeps its tokens, each on its line.
-/

namespace Sketch

open Text (isBlank)

namespace Pos

/-- A place as far as its line. -/
def onLine (p : Pos) : Pos := ⟨p.line, 0⟩

theorem onLine_line (p : Pos) : p.onLine.line = p.line := rfl

theorem after_line (p : Pos) (c : Char) : (p.after c).line = p.line + [c].count '\n' := by
  rw [after]
  split
  case isTrue newline => rw [newline]; rfl
  case isFalse inside => rw [List.count_eq_zero_of_not_mem (by simpa using Ne.symm inside)]; rfl

/-- A line is left by its newline and by nothing else. -/
theorem afterAll_line (p : Pos) (cs : List Char) : (p.afterAll cs).line = p.line + cs.count '\n' := by
  induction cs generalizing p with
  | nil => rfl
  | cons c cs ih =>
    rw [afterAll_cons, ih, after_line,
      Nat.add_assoc, ← List.count_append]
    rfl

end Pos

namespace Lexer

/-! ### The blanks at the ends of a line -/

/-- Blanks within one line. -/
def Margin (cs : List Char) : Prop := ∀ c ∈ cs, isBlank c = true ∧ c ≠ '\n'

/-- Two texts from inside a line on, where the second has other blanks at the ends of its lines. -/
inductive Relaid : List Char → List Char → Prop
  | stop {trail : List Char} (margin : Margin trail) : Relaid trail []
  | char {c : Char} {cs cs' : List Char} (inside : c ≠ '\n') (rest : Relaid cs cs') :
      Relaid (c :: cs) (c :: cs')
  | newline {trail lead cs cs' : List Char} (n : Nat) (margin : Margin trail) (margin' : Margin lead)
      (rest : Relaid cs cs') :
      Relaid (trail ++ '\n' :: (lead ++ cs)) ('\n' :: (List.replicate n ' ' ++ cs'))

variable {c : Char} {ws : List Char} {p p' : Pos}

theorem isBlank_eq_false_of_isDigit (digit : Number.isDigit c = true) : isBlank c = false := by
  simp only [Number.isDigit, Bool.and_eq_true, decide_eq_true_eq, Char.le_def, UInt32.le_iff_toNat_le] at digit
  have range : 0x30 ≤ c.toNat ∧ c.toNat ≤ 0x39 := digit
  simp only [isBlank, Bool.or_eq_false_iff, Bool.and_eq_false_iff, decide_eq_false_iff_not]
  omega

theorem isBlank_eq_false_of_isNameStart (start : isNameStart c = true) : isBlank c = false := by
  simp only [isNameStart, Bool.or_eq_true, Bool.and_eq_true, decide_eq_true_eq, Char.le_def,
    UInt32.le_iff_toNat_le] at start
  rcases start with (lower | upper) | rfl
  · have range : 0x61 ≤ c.toNat ∧ c.toNat ≤ 0x7a := lower
    simp only [isBlank, Bool.or_eq_false_iff, Bool.and_eq_false_iff, decide_eq_false_iff_not]
    omega
  · have range : 0x41 ≤ c.toNat ∧ c.toNat ≤ 0x5a := upper
    simp only [isBlank, Bool.or_eq_false_iff, Bool.and_eq_false_iff, decide_eq_false_iff_not]
    omega
  · rfl

theorem isBlank_eq_false_of_isNamePart (part : isNamePart c = true) : isBlank c = false := by
  rcases Bool.or_eq_true_iff.mp part with start | digit
  · exact isBlank_eq_false_of_isNameStart start
  · exact isBlank_eq_false_of_isDigit digit

namespace Margin

theorem nil : Margin [] := by
  intro c mem
  cases mem

theorem of_cons {c : Char} {cs : List Char} (margin : Margin (c :: cs)) : Margin cs :=
  fun d mem => margin d (List.mem_cons_of_mem c mem)

theorem spaces (n : Nat) : Margin (List.replicate n ' ') := by
  intro c mem
  rw [List.eq_of_mem_replicate mem]
  decide

theorem count_newline {cs : List Char} (margin : Margin cs) : cs.count '\n' = 0 :=
  List.count_eq_zero_of_not_mem fun mem => (margin '\n' mem).2 rfl

end Margin

namespace Relaid

variable {cs cs' : List Char}

theorem ink {c : Char} (ink : isBlank c = false) (relaid : Relaid cs cs') : Relaid (c :: cs) (c :: cs') := by
  apply char _ relaid
  rintro rfl
  cases ink

variable {body : List Char} {c : Char}

theorem append (inside : '\n' ∉ body) (relaid : Relaid cs cs') : Relaid (body ++ cs) (body ++ cs') := by
  induction body with
  | nil => exact relaid
  | cons c body ih =>
    rw [List.mem_cons, not_or] at inside
    exact char (Ne.symm inside.1) (ih inside.2)

/-- A character that is no blank stands in both texts. -/
theorem of_cons (ink : isBlank c = false) (relaid : Relaid (c :: cs) cs') : ∃ ds, cs' = c :: ds ∧ Relaid cs ds := by
  generalize whole : c :: cs = text at relaid
  cases relaid with
  | stop margin =>
    rw [← whole] at margin
    rw [(margin c List.mem_cons_self).1] at ink
    cases ink
  | char inside rest =>
    cases whole
    exact ⟨_, rfl, rest⟩
  | @newline trail lead ds ds' n margin margin' rest =>
    cases trail with
    | nil =>
      cases whole
      cases ink
    | cons d trail =>
      cases whole
      rw [(margin c List.mem_cons_self).1] at ink
      cases ink

/-- The texts go on with the same character that is no blank, or with none. -/
theorem head?_eq_some (ink : isBlank c = false) (relaid : Relaid cs cs') : cs'.head? = some c ↔ cs.head? = some c := by
  constructor
  · intro head
    cases relaid with
    | stop margin => cases head
    | char inside rest => exact head
    | newline n margin margin' rest =>
      cases head
      cases ink
  · intro head
    obtain ⟨ds, rfl⟩ := List.head?_eq_some_iff.mp head
    obtain ⟨ds', rfl, -⟩ := of_cons ink relaid
    rfl

/-- What ends with no blank stands in both texts, as far as it is on one line. -/
theorem of_append (ink : isBlank c = false) (inside : '\n' ∉ body)
    (relaid : Relaid (body ++ c :: cs) cs') : ∃ ds, cs' = body ++ c :: ds ∧ Relaid cs ds := by
  have newline : c ≠ '\n' := by
    rintro rfl
    cases ink
  induction body generalizing cs' with
  | nil => exact of_cons ink relaid
  | cons d body ih =>
    generalize whole : d :: body ++ c :: cs = text at relaid
    cases relaid with
    | stop margin =>
      subst whole
      rw [(margin c (List.mem_append_right _ List.mem_cons_self)).1] at ink
      cases ink
    | char _ rest =>
      cases whole
      obtain ⟨ds, rfl, behind⟩ := ih (fun mem => inside (List.mem_cons_of_mem d mem)) rest
      exact ⟨ds, rfl, behind⟩
    | newline n margin _ _ =>
      -- The line would end inside of the text, or behind blanks that the character is one of.
      rcases List.append_eq_append_iff.mp whole with ⟨as, trail, rest⟩ | ⟨as, front, rest⟩
      · cases as with
        | nil => exact absurd (List.cons.inj rest).1 newline
        | cons e as =>
          obtain ⟨rfl, -⟩ := List.cons.inj rest
          rw [(margin c (trail ▸ List.mem_append_right _ List.mem_cons_self)).1] at ink
          cases ink
      · cases as with
        | nil => exact absurd (List.cons.inj rest).1.symm newline
        | cons e as =>
          obtain ⟨rfl, -⟩ := List.cons.inj rest
          exact absurd (front ▸ List.mem_append_right _ List.mem_cons_self) inside

/-- The text laid out anew has nothing on a line that was not there. -/
theorem starts {word : List Char} (inside : '\n' ∉ word) (relaid : Relaid cs cs') (starts : word <+: cs') :
    word <+: cs := by
  induction relaid generalizing word with
  | stop => exact List.prefix_nil.mp starts ▸ List.nil_prefix
  | char _ rest ih =>
    cases word with
    | nil => exact List.nil_prefix
    | cons d word =>
      obtain ⟨rfl, more⟩ := List.cons_prefix_cons.mp starts
      rw [List.mem_cons, not_or] at inside
      exact List.cons_prefix_cons.mpr ⟨rfl, ih inside.2 more⟩
  | newline =>
    cases word with
    | nil => exact List.nil_prefix
    | cons d word => exact absurd ((List.cons_prefix_cons.mp starts).1 ▸ List.mem_cons_self) inside

/-- What follows the end of the line is laid out anew. -/
theorem dropWhile_line (relaid : Relaid cs cs') : Relaid (cs.dropWhile (· ≠ '\n')) (cs'.dropWhile (· ≠ '\n')) := by
  have passes {ws : List Char} (margin : Margin ws) : ∀ c ∈ ws, decide (c ≠ '\n') = true :=
    fun c mem => decide_eq_true (margin c mem).2
  induction relaid with
  | stop margin =>
    rw [List.dropWhile_eq_nil_iff.mpr (passes margin)]
    exact .stop .nil
  | char inside rest ih =>
    simpa only [List.dropWhile_cons, decide_eq_true inside, if_true] using ih
  | newline n margin margin' rest _ =>
    rw [List.dropWhile_append_of_pos (passes margin)]
    exact .newline n .nil margin' rest

end Relaid

/-! ### Lexemes -/

/-- Lexemes of the same outcome and number of lines, in front of what is laid out anew. -/
structure Lexeme.Relaid (l l' : Lexeme) : Prop where
  outcome : l'.outcome = l.outcome
  lines : l'.text.count '\n' = l.text.count '\n'
  rest : Lexer.Relaid l.rest l'.rest

variable {cs cs' : List Char}

theorem lineComment_relaid (relaid : Relaid cs cs') : (lineComment cs).Relaid (lineComment cs') := by
  have oneLine (cs : List Char) : (cs.takeWhile (· ≠ '\n')).count '\n' = 0 := by
    apply List.count_eq_zero_of_not_mem
    intro mem
    have inside := List.mem_takeWhile_imp mem
    simp at inside
  refine ⟨rfl, ?_, relaid.dropWhile_line⟩
  rw [lineComment, lineComment, oneLine, oneLine]

/-! ### Comments over several lines -/

theorem blockComment_margin (margin : Margin ws) :
    blockComment (ws ++ cs) = (ws ++ (blockComment cs).1, (blockComment cs).2) := by
  induction ws with
  | nil => rfl
  | cons c ws ih =>
    have blank : isBlank c = true := (margin c List.mem_cons_self).1
    have inside : ¬(c = '*' ∧ (ws ++ cs).head? = some '/') := by
      rintro ⟨rfl, -⟩
      cases blank
    rw [List.cons_append, blockComment_cons inside, ih margin.of_cons]
    rfl

/-- A comment ends where it did, and has as many lines. -/
theorem blockComment_relaid (relaid : Relaid cs cs') :
    (blockComment cs').1.count '\n' = (blockComment cs).1.count '\n' ∧
      Relaid (blockComment cs).2 (blockComment cs').2 := by
  induction relaid with
  | @stop trail margin =>
    have whole : blockComment (trail ++ []) = _ := blockComment_margin margin
    rw [List.append_nil] at whole
    rw [whole]
    refine ⟨?_, .stop .nil⟩
    rw [List.count_append, margin.count_newline, Nat.zero_add]
  | @char c cs cs' inside rest ih =>
    by_cases closes : c = '*' ∧ cs.head? = some '/'
    · obtain ⟨rfl, slash⟩ := closes
      obtain ⟨cs, rfl⟩ := List.head?_eq_some_iff.mp slash
      obtain ⟨cs', rfl, behind⟩ := rest.of_cons rfl
      exact ⟨rfl, behind⟩
    · rw [blockComment_cons closes, blockComment_cons (by rwa [rest.head?_eq_some rfl])]
      refine ⟨?_, ih.2⟩
      rw [List.count_cons, List.count_cons, ih.1]
  | @newline trail lead cs cs' n margin margin' rest ih =>
    have inside {cs : List Char} : ¬('\n' = '*' ∧ cs.head? = some '/') := by
      rintro ⟨star, -⟩
      cases star
    rw [blockComment_margin margin, blockComment_cons inside, blockComment_cons inside,
      blockComment_margin margin', blockComment_margin (.spaces n)]
    refine ⟨?_, ih.2⟩
    simp only [List.count_append, List.count_cons, ih.1, margin.count_newline,
      margin'.count_newline, (Margin.spaces n).count_newline, Nat.zero_add]

/-- A comment begins with one of the opening signs. -/
theorem opened_of_comment (space : isSpace c = false) (comment : (lexeme c cs).outcome = .comment) :
    ∃ d ds, cs = d :: ds ∧ (c, d) ∈ [('/', '/'), ('-', '-'), ('/', '*')] := by
  have piece := lexeme_piece space cs
  have whole := (lexeme_cuts c cs).whole
  rw [Lexeme.IsPiece, comment] at piece
  generalize (lexeme c cs).text = text, (lexeme c cs).rest = rest at piece whole
  cases piece with
  | blank blank =>
    cases whole
    rw [space] at blank
    cases blank
  | line isMark =>
    cases whole
    exact ⟨_, _, rfl, by rcases isMark with rfl | rfl <;> decide⟩
  | block | openBlock =>
    cases whole
    exact ⟨_, _, rfl, by decide⟩

theorem comment_of_opened {d : Char} (opened : (c, d) ∈ [('/', '/'), ('-', '-'), ('/', '*')]) :
    (lexeme c (d :: cs)).outcome = .comment := by
  simp only [List.mem_cons, Prod.mk.injEq, List.not_mem_nil, or_false] at opened
  rcases opened with ⟨rfl, rfl⟩ | ⟨rfl, rfl⟩ | ⟨rfl, rfl⟩ <;> rfl

theorem comment_relaid (space : isSpace c = false) (relaid : Relaid cs cs')
    (comment : (lexeme c cs).outcome = .comment) : (lexeme c cs).Relaid (lexeme c cs') := by
  obtain ⟨d, ds, rfl, opened⟩ := opened_of_comment space comment
  simp only [List.mem_cons, Prod.mk.injEq, List.not_mem_nil, or_false] at opened
  rcases opened with ⟨rfl, rfl⟩ | ⟨rfl, rfl⟩ | ⟨rfl, rfl⟩
  all_goals obtain ⟨ds', rfl, behind⟩ := relaid.of_cons rfl
  · exact lineComment_relaid (.ink rfl relaid)
  · exact lineComment_relaid (.ink rfl relaid)
  · obtain ⟨lines, rest⟩ := blockComment_relaid behind
    exact ⟨rfl, lines, rest⟩

/-! ### Tokens -/

theorem newline_not_mem_of_stands {quote : Char} {body content : List Char} (stands : Stands quote body content) :
    '\n' ∉ body := by
  induction stands with
  | nil => exact List.not_mem_nil
  | char newline _ _ _ ih => simp [Ne.symm newline, ih]
  | @escape e d body content known more ih =>
    have visible : e ≠ '\n' := by
      rintro rfl
      simp [escapes] at known
    simp [visible.symm, ih]

/-- No token goes over the end of a line, and none ends with a blank. -/
theorem Spells.solid {kind : TokenKind} {text : List Char} (spelled : Spells kind text) :
    '\n' ∉ text ∧ ∃ body c, text = body ++ [c] ∧ isBlank c = false := by
  have inked {text : List Char} (begun : text ≠ []) (inks : ∀ c ∈ text, isBlank c = false) :
      '\n' ∉ text ∧ ∃ body c, text = body ++ [c] ∧ isBlank c = false := by
    refine ⟨fun mem => Bool.noConfusion (inks _ mem), text.dropLast, text.getLast begun, ?_, ?_⟩
    · exact (List.dropLast_append_getLast begun).symm
    · exact inks _ (List.getLast_mem begun)
  cases spelled with
  | fixed listed =>
    have shape : (fixedSpellings kind).all (fun s => s.toList ≠ [] ∧ s.toList.all (!isBlank ·)) = true := by
      cases kind with
      | keyword k => cases k <;> decide
      | punct p => cases p <;> decide
      | bool b => cases b <;> decide
      | number | string | ident => rfl
    have solid := List.all_eq_true.mp shape _ listed
    simp only [String.toList_ofList, List.all_eq_true, decide_eq_true_eq, Bool.not_eq_true'] at solid
    exact inked solid.1 solid.2
  | name start parts =>
    apply inked (List.cons_ne_nil _ _)
    exact List.forall_mem_cons.mpr ⟨isBlank_eq_false_of_isNameStart start, fun d mem =>
      isBlank_eq_false_of_isNamePart (parts d mem)⟩
  | whole begun digits => exact inked begun fun d mem => isBlank_eq_false_of_isDigit (digits d mem)
  | fraction begun digits goes decimals =>
    apply inked (by simp)
    intro c mem
    rcases List.mem_append.mp mem with mem | mem
    · exact isBlank_eq_false_of_isDigit (digits c mem)
    rcases List.mem_cons.mp mem with rfl | mem
    · rfl
    · exact isBlank_eq_false_of_isDigit (decimals c mem)
  | @string quote body content isQuote stands =>
    have ink : isBlank quote = false := by rcases isQuote with rfl | rfl <;> rfl
    have visible : quote ≠ '\n' := by
      rintro rfl
      cases ink
    exact ⟨by simp [visible.symm, newline_not_mem_of_stands stands], quote :: body, quote, rfl, ink⟩

section Longest

variable {kind : TokenKind} {c : Char} {text rest : List Char}

/-- A spelling that begins with a quote is read as a whole, whatever follows. -/
theorem lexeme_of_quoted (isQuote : c = '"' ∨ c = '\'') (spelled : Spells kind (c :: text)) :
    lexeme c (text ++ rest) = ⟨.token kind, c :: text, rest⟩ := by
  obtain ⟨_, _, eq, -, alone⟩ := lexeme_of_spells spelled .nil
  cases eq
  obtain ⟨body, ending, fits⟩ := stringBody_fits c text
  rw [List.append_nil, lexeme_quote isQuote, stringLexeme] at alone
  generalize stringBody c text = read at fits alone
  obtain ⟨content, badEscape, closed, _, _⟩ := read
  obtain ⟨rfl, _, ends, stands, _⟩ := fits
  cases ends with
  | line | escape => cases alone
  | close =>
    cases badEscape with
    | some => cases alone
    | none =>
      cases alone
      exact lexeme_of_string isQuote (stands rfl rfl)

/-- The longest spelling is what is read, where no comment begins. -/
theorem lexeme_of_longest (spelled : Spells kind text) (whole : text ++ rest = c :: cs)
    (longest : ∀ other word, Spells other word → word <+: c :: cs → word.length ≤ text.length)
    (ink : (lexeme c cs).outcome ≠ .comment) : lexeme c cs = ⟨.token kind, text, rest⟩ := by
  obtain ⟨c, more, rfl, space, alone⟩ := lexeme_of_spells spelled .nil
  obtain ⟨rfl, rfl⟩ := List.cons.inj whole
  by_cases isQuote : c = '"' ∨ c = '\''
  · exact lexeme_of_quoted isQuote spelled
  have piece := lexeme_piece space (more ++ rest)
  have cut : _ = (c :: more) ++ rest := (lexeme_cuts c (more ++ rest)).whole
  have long : (c :: more).length ≤ _ := lexeme_longest spelled whole.symm
  generalize lexeme c (more ++ rest) = read at *
  obtain ⟨outcome, word, after⟩ := read
  cases outcome with
  | comment => exact absurd rfl ink
  | token other =>
    obtain ⟨rfl, rfl⟩ := List.append_inj cut (Nat.le_antisymm (longest other word piece ⟨after, cut⟩) long)
    obtain ⟨_, _, eq, -, same⟩ := lexeme_of_spells piece .nil
    cases eq
    rw [alone] at same
    cases same
    rfl
  | fault fault before =>
    -- No fault is found where something can be spelled.
    have wrong : Wrong fault before word after := piece
    cases wrong with
    | stray _ unknown =>
      cases cut
      exact absurd spelled (unknown kind more)
    | half pair =>
      cases cut
      obtain rfl : more = [] := List.length_eq_zero_iff.mp (Nat.le_zero.mp (Nat.le_of_succ_le_succ long))
      simp only [pairs, List.mem_cons, Prod.mk.injEq, List.not_mem_nil, or_false] at pair
      rcases pair with ⟨rfl, -⟩ | ⟨rfl, -⟩ | ⟨rfl, -⟩ <;> cases alone
    | openString string | openEscape string | badEscape string =>
      obtain ⟨rfl, -⟩ := List.cons.inj cut
      exact absurd string isQuote

end Longest

/-- A lexeme without fault does not depend on the blanks at the ends of lines. -/
theorem lexeme_relaid (space : isSpace c = false) (relaid : Relaid cs cs')
    (clean : ∀ fault before, (lexeme c cs).outcome ≠ .fault fault before) : (lexeme c cs).Relaid (lexeme c cs') := by
  cases outcome : (lexeme c cs).outcome with
  | fault fault before => exact absurd outcome (clean fault before)
  | comment => exact comment_relaid space relaid outcome
  | token kind =>
    have piece := lexeme_piece space cs
    have whole := (lexeme_cuts c cs).whole
    have longest : ∀ other word, Spells other word → word <+: c :: cs →
        word.length ≤ (lexeme c cs).text.length := by
      rintro other word spelled ⟨rest, eq⟩
      exact lexeme_longest spelled eq.symm
    have both : Relaid (c :: cs) (c :: cs') := .char (by rintro rfl; cases space) relaid
    have ink : (lexeme c cs').outcome ≠ .comment := by
      intro comment
      obtain ⟨d, ds', rfl, opened⟩ := opened_of_comment space comment
      have ink : isBlank d = false := by
        simp only [List.mem_cons, Prod.mk.injEq, List.not_mem_nil, or_false] at opened
        rcases opened with ⟨-, rfl⟩ | ⟨-, rfl⟩ | ⟨-, rfl⟩ <;> rfl
      obtain ⟨ds, rfl⟩ := List.head?_eq_some_iff.mp ((relaid.head?_eq_some ink).mp rfl)
      rw [comment_of_opened opened] at outcome
      cases outcome
    rw [Lexeme.IsPiece, outcome] at piece
    obtain ⟨inside, body, d, text, solid⟩ := Spells.solid piece
    rw [text] at inside
    have laid := both
    rw [← whole, text, List.append_assoc] at laid
    obtain ⟨ds, eq, behind⟩ := laid.of_append solid fun mem => inside (List.mem_append_left [d] mem)
    have read : lexeme c cs' = ⟨.token kind, (lexeme c cs).text, ds⟩ := by
      apply lexeme_of_longest piece _ _ ink
      · rw [eq, text, List.append_assoc]
        rfl
      · intro other word spelled starts
        exact longest other word spelled (both.starts spelled.solid.1 starts)
    rw [read]
    exact ⟨outcome.symm, rfl, behind⟩

/-- No lexeme starts with a blank. -/
theorem lexeme_blank (blank : isBlank c = true) : lexeme c cs = ⟨.fault (.unexpectedChar c) [], [c], cs⟩ := by
  have other : c ∉ '"' :: '\'' :: '-' :: '/' :: symbols := by
    intro mem
    have inks : ('"' :: '\'' :: '-' :: '/' :: symbols).all (!isBlank ·) = true := by decide
    have ink := List.all_eq_true.mp inks c mem
    rw [blank] at ink
    cases ink
  have digit : ¬Number.isDigit c = true := fun digit => by
    rw [isBlank_eq_false_of_isDigit digit] at blank
    cases blank
  have start : ¬isNameStart c = true := fun start => by
    rw [isBlank_eq_false_of_isNameStart start] at blank
    cases blank
  rw [List.mem_cons, List.mem_cons, ← or_assoc, not_or] at other
  rw [lexeme_other other.2, if_neg other.1, if_neg digit, if_neg start]

/-! ### Whole texts -/

/-- Blanks that give no fault are passed over. -/
theorem scan_blanks (p : Pos) (blanks : ∀ c ∈ ws, isBlank c = true)
    (clean : (scan p (ws ++ cs)).faults = []) : scan p (ws ++ cs) = scan (p.afterAll ws) cs := by
  induction ws generalizing p with
  | nil => rfl
  | cons c ws ih =>
    rw [List.cons_append] at clean
    cases space : isSpace c with
    | true =>
      rw [scan_space p space] at clean
      rw [List.cons_append, scan_space p space]
      exact ih _ (fun d mem => blanks d (List.mem_cons_of_mem c mem)) clean
    | false =>
      rw [scan_lexeme p space, lexeme_blank (blanks c List.mem_cons_self)] at clean
      cases clean

/-- The same tokens, each on its line, and no fault. -/
structure Scan.Relaid (s s' : Scan) : Prop where
  faults : s'.faults = []
  tokens : s'.tokens.map (Token.relocate Pos.onLine) = s.tokens.map (Token.relocate Pos.onLine)
  stop : s'.stop.line = s.stop.line

theorem Scan.Relaid.behind {s s' : Scan} {outcome : Outcome} (relaid : s.Relaid s')
    (line : p'.line = p.line) (clean : ∀ fault before, outcome ≠ .fault fault before) :
    (s.behind p outcome).Relaid (s'.behind p' outcome) := by
  cases outcome with
  | token kind =>
    have first : Token.relocate Pos.onLine ⟨kind, p'⟩ = Token.relocate Pos.onLine ⟨kind, p⟩ := by
      simp only [Token.relocate, Pos.onLine, line]
    refine ⟨relaid.faults, ?_, relaid.stop⟩
    simp only [Scan.behind, List.map_cons, first, relaid.tokens]
  | comment => exact relaid
  | fault fault before => exact absurd rfl (clean fault before)

/-- A text without faults keeps its tokens and their lines when it is laid out anew. -/
theorem scan_relaid (relaid : Relaid cs cs') (line : p'.line = p.line)
    (clean : (scan p cs).faults = []) : (scan p cs).Relaid (scan p' cs') := by
  -- Each lexeme and each end of a line leaves a shorter text.
  induction size : cs.length using Nat.strong_induction_on generalizing cs cs' p p' with
  | h size ih =>
  subst size
  cases relaid with
  | stop margin =>
    rw [← List.append_nil cs] at clean ⊢
    rw [scan_blanks p (fun c mem => (margin c mem).1) clean, scan, scan]
    refine ⟨rfl, rfl, ?_⟩
    rw [Pos.afterAll_line, margin.count_newline]
    exact line
  | @char c cs cs' inside rest =>
    cases space : isSpace c with
    | true =>
      rw [scan_space p space] at clean ⊢
      rw [scan_space p' space]
      apply ih cs.length (Nat.lt_succ_self _) rest _ clean rfl
      rw [Pos.after_line, Pos.after_line, line]
    | false =>
      rw [scan_lexeme p space] at clean ⊢
      rw [scan_lexeme p' space]
      obtain ⟨cleanRest, token⟩ := Scan.of_behind clean
      obtain ⟨outcome, lines, restRelaid⟩ := lexeme_relaid space rest token
      rw [outcome]
      apply Scan.Relaid.behind _ line token
      apply ih _ (lexeme_rest_lt c cs) restRelaid _ cleanRest rfl
      rw [Pos.afterAll_line, Pos.afterAll_line, line, lines]
  | @newline trail lead cs cs' n margin margin' rest =>
    have blanks : ∀ c ∈ trail ++ '\n' :: lead, isBlank c = true := by
      intro c mem
      rw [List.mem_append, List.mem_cons] at mem
      rcases mem with mem | rfl | mem
      · exact (margin c mem).1
      · rfl
      · exact (margin' c mem).1
    have spaces : ∀ c ∈ '\n' :: List.replicate n ' ', isSpace c = true := by
      intro c mem
      rcases List.mem_cons.mp mem with rfl | mem
      · rfl
      · rw [List.eq_of_mem_replicate mem]
        rfl
    rw [← List.cons_append, ← List.append_assoc] at clean ⊢
    have passed := scan_blanks p blanks clean
    rw [passed] at clean ⊢
    rw [← List.cons_append, scan_spaces p' spaces]
    apply ih cs.length _ rest _ clean rfl
    · simp only [List.length_append, List.length_cons]
      omega
    · simp only [Pos.afterAll_line, List.count_append, List.count_cons, line, margin.count_newline,
        margin'.count_newline, (Margin.spaces n).count_newline, Nat.zero_add]

end Lexer

end Sketch
