import Sketch.Token.Lexer

/-!
Equations of the lexer: what a lexeme is in front of a given text, and how a scan goes on behind it. Whatever is said
of tokens rests on these.
-/

namespace Sketch

namespace Pos

variable (p : Pos) (c : Char) (cs ds : List Char)

@[simp] theorem afterAll_nil : p.afterAll [] = p := rfl

@[simp] theorem afterAll_cons : p.afterAll (c :: cs) = (p.after c).afterAll cs := rfl

@[simp] theorem afterAll_append : p.afterAll (cs ++ ds) = (p.afterAll cs).afterAll ds := List.foldl_append

end Pos

namespace Lexer

variable {cs : List Char}

/-! ### Symbols, numbers and comments -/

variable {c : Char}

theorem withEq_eq {alone assigned : TokenKind} (other : cs.head? ≠ some '=') :
    withEq c alone assigned cs = ⟨.token alone, [c], cs⟩ := by
  rw [withEq]
  intro rest eq
  exact other (congrArg List.head? eq)

theorem pairOnly_eq {second : Char} {kind : TokenKind} (other : cs.head? ≠ some second) : pairOnly c second kind cs =
      ⟨.fault (.halfOperator (String.ofList [c, second]) (String.ofList [c])) [], [c], cs⟩ := by
  cases cs with
  | nil => rfl
  | cons d cs => exact if_neg fun eq => other (congrArg some eq)

theorem numberLexeme_of_fraction {d : Char} {rest : List Char}
    (point : cs.dropWhile Number.isDigit = '.' :: d :: rest) (digit : Number.isDigit d = true) :
    numberLexeme cs =
      let numeral : Number.Numeral :=
        ⟨cs.takeWhile Number.isDigit, some ((d :: rest).takeWhile Number.isDigit), none⟩
      ⟨.token (.number numeral.value), numeral.text, (d :: rest).dropWhile Number.isDigit⟩ := by
  simp only [numberLexeme, Number.Numeral.readDigits, point, digit, if_true]

theorem numberLexeme_of_whole
    (whole : ¬∃ d rest, cs.dropWhile Number.isDigit = '.' :: d :: rest ∧ Number.isDigit d = true) :
    numberLexeme cs =
      let numeral : Number.Numeral := ⟨cs.takeWhile Number.isDigit, none, none⟩
      ⟨.token (.number numeral.value), numeral.text, cs.dropWhile Number.isDigit⟩ := by
  simp only [numberLexeme, Number.Numeral.readDigits]
  split
  case h_1 d rest point => exact if_neg fun digit => whole ⟨d, rest, point, digit⟩
  case h_2 => rfl

theorem blockComment_cons (inside : ¬(c = '*' ∧ cs.head? = some '/')) :
    blockComment (c :: cs) = (c :: (blockComment cs).1, (blockComment cs).2) := by
  rw [blockComment]
  intro rest star slash
  exact inside ⟨star, congrArg List.head? slash⟩

/-! ### Strings -/

section Strings

variable {quote : Char} (isQuote : quote = '"' ∨ quote = '\'')

include isQuote

theorem stringBody_quote : stringBody quote (quote :: cs) = ⟨[], none, true, [quote], cs⟩ := by
  have inside : quote ≠ '\n' := by rcases isQuote with rfl | rfl <;> decide
  cases cs <;> rw [stringBody, if_neg inside, if_pos rfl]

omit isQuote in
theorem stringBody_char {c : Char} (newline : c ≠ '\n') (close : c ≠ quote) (escape : c ≠ '\\') :
    stringBody quote (c :: cs) = (stringBody quote cs).prepend [c] [c] := by
  cases cs with
  | nil =>
    simp only [stringBody, if_neg newline, if_neg close]
    rfl
  | cons e cs => rw [stringBody, if_neg newline, if_neg close, if_neg escape]

theorem stringBody_escape {e d : Char} (known : escaped? e = some d) :
    stringBody quote ('\\' :: e :: cs) = (stringBody quote cs).prepend ['\\', e] [d] := by
  have close : '\\' ≠ quote := by rcases isQuote with rfl | rfl <;> decide
  rw [stringBody, if_neg (by decide), if_neg close, if_pos rfl]
  simp only [known]

end Strings

/-! ### Any lexeme -/

/-- The characters that are a token with at most one more. -/
def symbols : List Char :=
  ['%', ':', ',', ';', '.', '(', ')', '\x7b', '\x7d', '[', ']', '+', '*', '=', '!', '<', '>', '~', '&', '|']

theorem lexeme_minus : lexeme '-' cs =
    if cs.head? = some '-' then lineComment ('-' :: cs)
    else withEq '-' (.punct .minus) (.punct .minusEq) cs := by
  split
  case isTrue minus =>
    obtain ⟨cs, rfl⟩ := List.head?_eq_some_iff.mp minus
    rfl
  case isFalse other =>
    simp only [lexeme]
    split
    case h_1 => exact absurd rfl other
    case h_2 => rfl

theorem lexeme_slash : lexeme '/' cs =
    if cs.head? = some '/' then lineComment ('/' :: cs)
    else if cs.head? = some '*' then
      ⟨.comment, '/' :: '*' :: (blockComment cs.tail).1, (blockComment cs.tail).2⟩
    else withEq '/' (.punct .slash) (.punct .slashEq) cs := by
  simp only [lexeme]
  split
  case h_1 => rfl
  case h_2 => rfl
  case h_3 slash star =>
    have noSlash : cs.head? ≠ some '/' := fun head =>
      let ⟨rest, eq⟩ := List.head?_eq_some_iff.mp head
      slash rest eq
    have noStar : cs.head? ≠ some '*' := fun head =>
      let ⟨rest, eq⟩ := List.head?_eq_some_iff.mp head
      star rest eq
    rw [if_neg noSlash, if_neg noStar]

theorem lexeme_other (other : c ∉ '-' :: '/' :: symbols) : lexeme c cs = if c = '"' ∨ c = '\'' then stringLexeme c cs
    else if Number.isDigit c then numberLexeme (c :: cs) else if isNameStart c then wordLexeme (c :: cs)
    else ⟨.fault (.unexpectedChar c) [], [c], cs⟩ := by
  unfold lexeme
  split
  case h_23 => rfl
  all_goals exact absurd (by decide) other

theorem lexeme_quote {quote : Char} (isQuote : quote = '"' ∨ quote = '\'') :
    lexeme quote cs = stringLexeme quote cs := by
  rcases isQuote with rfl | rfl <;> rfl

theorem lexeme_digit (digit : Number.isDigit c = true) : lexeme c cs = numberLexeme (c :: cs) := by
  have others : ('"' :: '\'' :: '-' :: '/' :: symbols).all (!Number.isDigit ·) = true := by decide
  have other : c ∉ '"' :: '\'' :: '-' :: '/' :: symbols := by
    intro mem
    have none := List.all_eq_true.mp others c mem
    simp [digit] at none
  rw [List.mem_cons, List.mem_cons, ← or_assoc, not_or] at other
  rw [lexeme_other other.2, if_neg other.1, if_pos digit]

theorem isDigit_eq_false_of_isNameStart (start : isNameStart c = true) : Number.isDigit c = false := by
  simp only [isNameStart, Bool.or_eq_true, Bool.and_eq_true, decide_eq_true_eq, Char.le_def,
    UInt32.le_iff_toNat_le] at start
  simp only [Number.isDigit, Bool.and_eq_false_iff, decide_eq_false_iff_not, Char.le_def,
    UInt32.le_iff_toNat_le]
  have nine : '9'.val.toNat = 57 := rfl
  rcases start with (lower | upper) | rfl
  · have range : 97 ≤ c.val.toNat ∧ c.val.toNat ≤ 122 := lower
    omega
  · have range : 65 ≤ c.val.toNat ∧ c.val.toNat ≤ 90 := upper
    omega
  · decide

theorem lexeme_name (start : isNameStart c = true) : lexeme c cs = wordLexeme (c :: cs) := by
  have others : ('"' :: '\'' :: '-' :: '/' :: symbols).all (!isNameStart ·) = true := by decide
  have other : c ∉ '"' :: '\'' :: '-' :: '/' :: symbols := by
    intro mem
    have none := List.all_eq_true.mp others c mem
    simp [start] at none
  have digit : ¬Number.isDigit c = true := by simp [isDigit_eq_false_of_isNameStart start]
  rw [List.mem_cons, List.mem_cons, ← or_assoc, not_or] at other
  rw [lexeme_other other.2, if_neg other.1, if_neg digit, if_pos start]

/-! ### Whole texts -/

/-- A lexeme of a given outcome in front of what was read behind it. -/
def Scan.behind (p : Pos) (outcome : Outcome) (next : Scan) : Scan :=
  match outcome with
  | .token kind => { next with tokens := ⟨kind, p⟩ :: next.tokens }
  | .comment => next
  | .fault fault before => { next with faults := ⟨fault, p.afterAll before⟩ :: next.faults }

theorem scan_space (p : Pos) (space : isSpace c = true) : scan p (c :: cs) = scan (p.after c) cs := by
  rw [scan, if_pos space]

theorem scan_lexeme (p : Pos) (space : isSpace c = false) : scan p (c :: cs) =
      (scan (p.afterAll (lexeme c cs).text) (lexeme c cs).rest).behind p (lexeme c cs).outcome := by
  rw [scan, if_neg (by rw [space]; exact Bool.false_ne_true)]
  rfl

theorem scan_spaces {ws : List Char} (p : Pos) (spaces : ∀ c ∈ ws, isSpace c = true) :
    scan p (ws ++ cs) = scan (p.afterAll ws) cs := by
  induction ws generalizing p with
  | nil => rfl
  | cons c ws ih =>
    rw [List.cons_append, scan_space p (spaces c List.mem_cons_self)]
    exact ih _ fun d mem => spaces d (List.mem_cons_of_mem c mem)

theorem Scan.of_behind {s : Scan} {p : Pos} {outcome : Outcome} (clean : (s.behind p outcome).faults = []) :
    s.faults = [] ∧ ∀ fault before, outcome ≠ .fault fault before := by
  cases outcome with
  | token kind =>
    refine ⟨clean, ?_⟩
    intro fault before eq
    cases eq
  | comment =>
    refine ⟨clean, ?_⟩
    intro fault before eq
    cases eq
  | fault fault before => cases clean

end Lexer

end Sketch
