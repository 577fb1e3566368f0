import Mathlib.Data.String.Basic
import Sketch.Proofs.Token.Lexemes

/-!
How tokens are spelled, said without a word about how they are read. The lexer takes the longest spelling there is, so
it gives back the tokens of any text that was written with blanks between them.
-/

namespace Sketch

def Keyword.spellings : Keyword → List String
  | .varKw => ["var", "let"]
  | .nilKw => ["nil", "null"]
  | .andKw => ["and", "&&"]
  | .orKw => ["or", "||"]
  | .notKw => ["not", "!"]
  | k => [k.word]

def Punct.spellings : Punct → List String
  | .bangEq => ["!=", "~="]
  | p => [p.symbol]

namespace Lexer

/-- The spellings of a token that has only a few. -/
def fixedSpellings : TokenKind → List String
  | .keyword k => k.spellings
  | .punct p => p.spellings
  | .bool true => ["true"]
  | .bool false => ["false"]
  | .number _ | .string _ | .ident _ => []

/-- What may stand behind a backslash in a string, and what both together stand for. -/
def escapes : List (Char × Char) :=
  [('n', '\n'), ('t', '\t'), ('r', '\r'), ('0', Char.ofNat 0), ('"', '"'), ('\'', '\''), ('\\', '\\')]

/-- What stands between two quotes, and the text that it stands for. -/
inductive Stands (quote : Char) : List Char → List Char → Prop
  | nil : Stands quote [] []
  | char {c : Char} {body content : List Char} (newline : c ≠ '\n') (close : c ≠ quote) (escape : c ≠ '\\')
      (rest : Stands quote body content) : Stands quote (c :: body) (c :: content)
  | escape {e d : Char} {body content : List Char} (known : (e, d) ∈ escapes)
      (rest : Stands quote body content) : Stands quote ('\\' :: e :: body) (d :: content)

/-- The spellings of a token. No name is a word with a meaning of its own. -/
inductive Spells : TokenKind → List Char → Prop
  | fixed {kind : TokenKind} {cs : List Char} (listed : String.ofList cs ∈ fixedSpellings kind) : Spells kind cs
  | name {c : Char} {cs : List Char} (start : isNameStart c = true) (parts : ∀ d ∈ cs, isNamePart d = true)
      (free : ∀ kind, String.ofList (c :: cs) ∉ fixedSpellings kind) :
      Spells (.ident (String.ofList (c :: cs))) (c :: cs)
  | whole {ds : List Char} (begun : ds ≠ []) (digits : ∀ d ∈ ds, Number.isDigit d = true) :
      Spells (.number (Number.Numeral.value ⟨ds, none, none⟩)) ds
  | fraction {ds fs : List Char} (begun : ds ≠ []) (digits : ∀ d ∈ ds, Number.isDigit d = true)
      (goes : fs ≠ []) (decimals : ∀ d ∈ fs, Number.isDigit d = true) :
      Spells (.number (Number.Numeral.value ⟨ds, some fs, none⟩)) (ds ++ '.' :: fs)
  | string {quote : Char} {body content : List Char} (isQuote : quote = '"' ∨ quote = '\'')
      (stands : Stands quote body content) :
      Spells (.string (String.ofList content)) (quote :: (body ++ [quote]))

/-! ### Words and escapes -/

variable {k : Keyword} {c quote : Char} {cs rest body content fs text : List Char} {p : Char → Bool}
variable {kind : TokenKind}

theorem mem_spellings_of_ofWord? {word : String} (known : Keyword.ofWord? word = some k) : word ∈ k.spellings := by
  unfold Keyword.ofWord? at known
  split at known
  all_goals cases known
  all_goals simp [Keyword.spellings, Keyword.word]

/-- A keyword is read from each of its spellings that is a word. -/
theorem ofWord?_of_mem_spellings {word : String} (listed : word ∈ k.spellings)
    (parts : word.toList.all isNamePart = true) : Keyword.ofWord? word = some k := by
  cases k
  all_goals
    simp only [Keyword.spellings, Keyword.word, List.mem_cons, List.not_mem_nil, or_false] at listed
  case varKw | nilKw => rcases listed with rfl | rfl <;> rfl
  case andKw | orKw | notKw =>
    rcases listed with rfl | rfl
    · rfl
    · cases parts
  all_goals
    subst listed
    rfl

/-- No symbol begins like a word. -/
theorem not_mem_spellings_of_isNameStart (start : isNameStart c = true)
    (p : Punct) : String.ofList (c :: cs) ∉ p.spellings := by
  intro listed
  have symbols : p.spellings.all (·.toList.head?.all (!isNameStart ·)) = true := by
    cases p <;> decide
  have other := List.all_eq_true.mp symbols _ listed
  simp [start] at other

/-- A word is a spelling of the token that it is taken for. -/
theorem spells_ofWord (start : isNameStart c = true) (parts : ∀ d ∈ cs, isNamePart d = true) :
    Spells (.ofWord (String.ofList (c :: cs))) (c :: cs) := by
  have all : (String.ofList (c :: cs)).toList.all isNamePart = true := by
    simpa [isNamePart, start] using parts
  rw [TokenKind.ofWord]
  cases known : Keyword.ofWord? (String.ofList (c :: cs)) with
  | some k => exact .fixed (mem_spellings_of_ofWord? known)
  | none =>
    dsimp only
    split
    case isTrue isTrue => exact .fixed (List.mem_singleton.mpr isTrue)
    split
    case isTrue isFalse => exact .fixed (List.mem_singleton.mpr isFalse)
    case isFalse notTrue notFalse =>
      apply Spells.name start parts
      intro kind listed
      cases kind with
      | keyword k =>
        rw [ofWord?_of_mem_spellings listed all] at known
        cases known
      | punct p => exact not_mem_spellings_of_isNameStart start p listed
      | bool b =>
        cases b with
        | true => exact notTrue (List.mem_singleton.mp listed)
        | false => exact notFalse (List.mem_singleton.mp listed)
      | number | string | ident => cases listed

theorem escaped?_eq_some_iff {e d : Char} : escaped? e = some d ↔ (e, d) ∈ escapes := by
  constructor
  · intro known
    unfold escaped? at known
    split at known
    all_goals cases known
    all_goals decide
  · intro listed
    simp only [escapes, List.mem_cons, Prod.mk.injEq, List.not_mem_nil, or_false] at listed
    rcases listed with ⟨rfl, rfl⟩ | ⟨rfl, rfl⟩ | ⟨rfl, rfl⟩ | ⟨rfl, rfl⟩ | ⟨rfl, rfl⟩ | ⟨rfl, rfl⟩ | ⟨rfl, rfl⟩
    all_goals rfl

/-! ### Spellings in a text -/

/-- A text that is over or goes on with a blank. -/
def Edge (rest : List Char) : Prop := ∀ c, rest.head? = some c → isSpace c = true

theorem Edge.nil : Edge [] := by
  intro c head
  cases head

theorem Edge.ne (edge : Edge rest) (ink : isSpace c = false) : rest.head? ≠ some c := by
  intro head
  rw [edge c head] at ink
  cases ink

theorem isSpace_eq_false (inks : [' ', '\t', '\r', '\n'].all (!p ·) = true)
    (holds : p c = true) : isSpace c = false := by
  rw [Bool.eq_false_iff]
  intro space
  have mem : c ∈ [' ', '\t', '\r', '\n'] := by
    simpa [isSpace, or_assoc] using space
  have ink := List.all_eq_true.mp inks c mem
  simp [holds] at ink

/-- A run of characters of one kind is taken up to the edge. -/
theorem takeWhile_of_edge (inks : [' ', '\t', '\r', '\n'].all (!p ·) = true)
    (inside : ∀ c ∈ cs, p c = true) (edge : Edge rest) :
    (cs ++ rest).takeWhile p = cs ∧ (cs ++ rest).dropWhile p = rest := by
  have stops : rest.takeWhile p = [] ∧ rest.dropWhile p = rest := by
    cases rest with
    | nil => exact ⟨rfl, rfl⟩
    | cons c rest =>
      have other : p c = false := by
        rw [Bool.eq_false_iff]
        intro holds
        exact edge.ne (isSpace_eq_false inks holds) rfl
      simp [other]
  rw [List.takeWhile_append_of_pos inside, List.dropWhile_append_of_pos inside, stops.1, stops.2]
  exact ⟨List.append_nil cs, rfl⟩

/-- A spelling that begins like a word is one, and it is taken for its token. -/
theorem Spells.word (spelled : Spells kind (c :: cs)) (start : isNameStart c = true) :
    (∀ d ∈ cs, isNamePart d = true) ∧ TokenKind.ofWord (String.ofList (c :: cs)) = kind := by
  have parts {ds : List Char} (all : (c :: ds).all isNamePart = true) : ∀ d ∈ ds, isNamePart d = true :=
    fun d mem => List.all_eq_true.mp all d (List.mem_cons_of_mem c mem)
  have noDigit : ¬Number.isDigit c = true := by simp [isDigit_eq_false_of_isNameStart start]
  generalize text : c :: cs = word at spelled
  cases spelled with
  | fixed listed =>
    subst text
    cases kind with
    | keyword k =>
      have shape : k.spellings.all (fun s => s.toList.all isNamePart ||
          s.toList.head?.all (!isNameStart ·)) = true := by
        cases k <;> decide
      have all := List.all_eq_true.mp shape _ listed
      simp only [String.toList_ofList, List.head?_cons, Option.all_some, start, Bool.not_true,
        Bool.or_false] at all
      have known := ofWord?_of_mem_spellings listed (by rwa [String.toList_ofList])
      exact ⟨parts all, by rw [TokenKind.ofWord, known]⟩
    | punct p => exact absurd listed (not_mem_spellings_of_isNameStart start p)
    | bool b =>
      cases b
      all_goals
        have word := List.mem_singleton.mp listed
        refine ⟨parts ?_, by rw [word]; rfl⟩
        rw [String.ofList_eq.mp word]
        rfl
    | number | string | ident => cases listed
  | name _ tail free =>
    cases text
    refine ⟨tail, ?_⟩
    have unknown : Keyword.ofWord? (String.ofList (c :: cs)) = none := by
      rw [Option.eq_none_iff_forall_ne_some]
      intro k known
      exact free (.keyword k) (mem_spellings_of_ofWord? known)
    have notTrue : String.ofList (c :: cs) ≠ "true" := fun eq => free (.bool true) (List.mem_singleton.mpr eq)
    have notFalse : String.ofList (c :: cs) ≠ "false" :=
      fun eq => free (.bool false) (List.mem_singleton.mpr eq)
    rw [TokenKind.ofWord, unknown]
    dsimp only
    rw [if_neg notTrue, if_neg notFalse]
  | whole begun digits =>
    subst text
    exact absurd (digits c List.mem_cons_self) noDigit
  | @fraction ds fs begun digits goes decimals =>
    cases ds with
    | nil => exact absurd rfl begun
    | cons d ds =>
      cases text
      exact absurd (digits c List.mem_cons_self) noDigit
  | string isQuote stands =>
    cases text
    rcases isQuote with rfl | rfl <;> cases start

/-! A spelling in front of an edge is read as a whole. -/

theorem stringBody_of_stands (isQuote : quote = '"' ∨ quote = '\'') (stands : Stands quote body content) :
    stringBody quote (body ++ quote :: rest) = ⟨content, none, true, body ++ [quote], rest⟩ := by
  induction stands with
  | nil => exact stringBody_quote isQuote
  | char newline close escape _ ih =>
    rw [List.cons_append, stringBody_char newline close escape, ih]
    rfl
  | escape known _ ih =>
    rw [List.cons_append, List.cons_append, stringBody_escape isQuote (escaped?_eq_some_iff.mpr known),
      ih]
    rfl

theorem lexeme_of_word (spelled : Spells kind (c :: cs)) (start : isNameStart c = true) (edge : Edge rest) :
    lexeme c (cs ++ rest) = ⟨.token kind, c :: cs, rest⟩ := by
  obtain ⟨parts, isKind⟩ := spelled.word start
  have inside : ∀ d ∈ c :: cs, isNamePart d = true := by
    simpa [isNamePart, start] using parts
  obtain ⟨word, behind⟩ := takeWhile_of_edge (by decide) inside edge
  rw [lexeme_name start, wordLexeme, ← List.cons_append, word, behind, isKind]

/-- A symbol is read whole in front of a blank. -/
theorem lexeme_of_symbol {p : Punct} (listed : String.ofList (c :: cs) ∈ p.spellings) (edge : Edge rest) :
    lexeme c (cs ++ rest) = ⟨.token (.punct p), c :: cs, rest⟩ := by
  have noEq : rest.head? ≠ some '=' := edge.ne rfl
  cases p
  all_goals
    simp only [Punct.spellings, Punct.symbol, List.mem_cons, List.not_mem_nil, or_false, String.ofList_eq,
      String.reduceToList, List.cons.injEq] at listed
  case minus =>
    obtain ⟨rfl, rfl⟩ := listed
    rw [List.nil_append, lexeme_minus, if_neg (edge.ne rfl), withEq_eq noEq]
  case slash =>
    obtain ⟨rfl, rfl⟩ := listed
    rw [List.nil_append, lexeme_slash, if_neg (edge.ne rfl), if_neg (edge.ne rfl), withEq_eq noEq]
  case bangEq => rcases listed with ⟨rfl, rfl⟩ | ⟨rfl, rfl⟩ <;> rfl
  case plus | star | eq | lt | gt =>
    obtain ⟨rfl, rfl⟩ := listed
    exact withEq_eq noEq
  all_goals
    obtain ⟨rfl, rfl⟩ := listed
    rfl

/-- A keyword is read whole in front of a blank. -/
theorem lexeme_of_keyword (listed : String.ofList (c :: cs) ∈ k.spellings) (edge : Edge rest) :
    lexeme c (cs ++ rest) = ⟨.token (.keyword k), c :: cs, rest⟩ := by
  by_cases start : isNameStart c = true
  · exact lexeme_of_word (.fixed listed) start edge
  · cases k
    all_goals
      simp only [Keyword.spellings, Keyword.word, List.mem_cons, List.not_mem_nil, or_false, String.ofList_eq,
        String.reduceToList, List.cons.injEq] at listed
    case andKw | orKw =>
      rcases listed with ⟨rfl, rfl⟩ | ⟨rfl, rfl⟩
      · exact absurd rfl start
      · rfl
    case notKw =>
      rcases listed with ⟨rfl, rfl⟩ | ⟨rfl, rfl⟩
      · exact absurd rfl start
      · exact withEq_eq (edge.ne rfl)
    case varKw | nilKw => rcases listed with ⟨rfl, rfl⟩ | ⟨rfl, rfl⟩ <;> exact absurd rfl start
    all_goals
      obtain ⟨rfl, rfl⟩ := listed
      exact absurd rfl start

theorem lexeme_of_whole (digits : ∀ d ∈ c :: cs, Number.isDigit d = true) (edge : Edge rest) : lexeme c (cs ++ rest) =
      ⟨.token (.number (Number.Numeral.value ⟨c :: cs, none, none⟩)), c :: cs, rest⟩ := by
  obtain ⟨taken, behind⟩ := takeWhile_of_edge (by decide) digits edge
  have noPoint : ¬∃ d more, (c :: cs ++ rest).dropWhile Number.isDigit = '.' :: d :: more ∧
      Number.isDigit d = true := by
    rintro ⟨d, more, point, -⟩
    rw [behind] at point
    exact edge.ne (c := '.') rfl (by rw [point]; rfl)
  rw [lexeme_digit (digits c List.mem_cons_self), ← List.cons_append, numberLexeme_of_whole noPoint, taken,
    behind]
  simp [Number.Numeral.text]

/-- A number with a point goes as far as the digits behind the point. -/
theorem lexeme_fraction (rest : List Char) (digits : ∀ d ∈ c :: cs, Number.isDigit d = true) (goes : fs ≠ [])
    (decimals : ∀ d ∈ fs, Number.isDigit d = true) : lexeme c (cs ++ '.' :: fs ++ rest) =
      let numeral : Number.Numeral := ⟨c :: cs, some (fs ++ rest.takeWhile Number.isDigit), none⟩
      ⟨.token (.number numeral.value), numeral.text, rest.dropWhile Number.isDigit⟩ := by
  obtain ⟨f, fs, rfl⟩ := List.exists_cons_of_ne_nil goes
  have text : c :: (cs ++ '.' :: f :: fs ++ rest) = c :: cs ++ '.' :: f :: (fs ++ rest) := by simp
  have whole : (c :: cs ++ '.' :: f :: (fs ++ rest)).takeWhile Number.isDigit = c :: cs := by
    rw [List.takeWhile_append_of_pos digits]
    exact List.append_nil _
  have point : (c :: cs ++ '.' :: f :: (fs ++ rest)).dropWhile Number.isDigit = '.' :: f :: (fs ++ rest) := by
    rw [List.dropWhile_append_of_pos digits]
    rfl
  rw [lexeme_digit (digits c List.mem_cons_self), text,
    numberLexeme_of_fraction point (decimals f List.mem_cons_self), whole, ← List.cons_append,
    List.takeWhile_append_of_pos decimals, List.dropWhile_append_of_pos decimals]

theorem lexeme_of_fraction (digits : ∀ d ∈ c :: cs, Number.isDigit d = true) (goes : fs ≠ [])
    (decimals : ∀ d ∈ fs, Number.isDigit d = true) (edge : Edge rest) : lexeme c (cs ++ '.' :: fs ++ rest) =
      ⟨.token (.number (Number.Numeral.value ⟨c :: cs, some fs, none⟩)), c :: cs ++ '.' :: fs, rest⟩ := by
  obtain ⟨taken, behind⟩ := takeWhile_of_edge (p := Number.isDigit) (by decide) (List.forall_mem_nil _) edge
  rw [List.nil_append] at taken behind
  rw [lexeme_fraction rest digits goes decimals, taken, behind]
  simp [Number.Numeral.text]

theorem lexeme_of_string (isQuote : quote = '"' ∨ quote = '\'') (stands : Stands quote body content) :
    lexeme quote (body ++ [quote] ++ rest) =
      ⟨.token (.string (String.ofList content)), quote :: (body ++ [quote]), rest⟩ := by
  rw [lexeme_quote isQuote, stringLexeme, List.append_assoc, List.singleton_append,
    stringBody_of_stands isQuote stands]
  rfl

theorem ink_of_listed (listed : String.ofList cs ∈ fixedSpellings kind) :
    ∃ c rest, cs = c :: rest ∧ isSpace c = false := by
  have shape : (fixedSpellings kind).all (fun s => s.toList.head?.any (!isSpace ·)) = true := by
    cases kind with
    | keyword k => cases k <;> decide
    | punct p => cases p <;> decide
    | bool b => cases b <;> decide
    | number | string | ident => rfl
  have ink := List.all_eq_true.mp shape _ listed
  rw [String.toList_ofList] at ink
  cases cs with
  | nil => cases ink
  | cons c rest => exact ⟨c, rest, rfl, by simpa using ink⟩

/-- Every spelling in front of an edge is read as its token. -/
theorem lexeme_of_spells (spelled : Spells kind text) (edge : Edge rest) :
    ∃ c cs, text = c :: cs ∧ isSpace c = false ∧ lexeme c (cs ++ rest) = ⟨.token kind, text, rest⟩ := by
  cases spelled with
  | fixed listed =>
    obtain ⟨c, cs, rfl, ink⟩ := ink_of_listed listed
    refine ⟨c, cs, rfl, ink, ?_⟩
    cases kind with
    | keyword k => exact lexeme_of_keyword listed edge
    | punct p => exact lexeme_of_symbol listed edge
    | bool b =>
      apply lexeme_of_word (.fixed listed) _ edge
      cases b
      all_goals
        simp only [fixedSpellings, List.mem_singleton, String.ofList_eq, String.reduceToList,
          List.cons.injEq] at listed
        rw [listed.1]
        rfl
    | number | string | ident => cases listed
  | name start parts free =>
    exact ⟨_, _, rfl, isSpace_eq_false (by decide) start, lexeme_of_word (.name start parts free) start edge⟩
  | whole begun digits =>
    obtain ⟨d, ds, rfl⟩ := List.exists_cons_of_ne_nil begun
    exact ⟨d, ds, rfl, isSpace_eq_false (by decide) (digits d List.mem_cons_self), lexeme_of_whole digits edge⟩
  | fraction begun digits goes decimals =>
    obtain ⟨d, ds, rfl⟩ := List.exists_cons_of_ne_nil begun
    exact ⟨d, _, rfl, isSpace_eq_false (by decide) (digits d List.mem_cons_self),
      lexeme_of_fraction digits goes decimals edge⟩
  | string isQuote stands =>
    refine ⟨_, _, rfl, ?_, lexeme_of_string isQuote stands⟩
    rcases isQuote with rfl | rfl <;> rfl

/-! No spelling at the same place is longer than the one that is read. -/

theorem word_longest (spelled : Spells kind (c :: cs))
    (start : isNameStart c = true) : (c :: cs).length ≤ (lexeme c (cs ++ rest)).text.length := by
  have inside : ∀ d ∈ c :: cs, isNamePart d = true := by
    simpa [isNamePart, start] using (spelled.word start).1
  rw [lexeme_name start, wordLexeme, ← List.cons_append, List.takeWhile_append_of_pos inside,
    List.length_append]
  exact Nat.le_add_right _ _

/-- No listed spelling is longer than the lexeme that is read. -/
theorem listed_longest (listed : String.ofList (c :: cs) ∈ fixedSpellings kind) :
    (c :: cs).length ≤ (lexeme c (cs ++ rest)).text.length := by
  by_cases start : isNameStart c = true
  · exact word_longest (.fixed listed) start
  by_cases alone : cs = []
  · subst alone
    exact List.length_pos_iff.mpr (lexeme_cuts _ _).nonempty
  cases kind with
  | number | string | ident => cases listed
  | bool b =>
    cases b
    all_goals
      simp only [fixedSpellings, List.mem_singleton, String.ofList_eq, String.reduceToList,
        List.cons.injEq] at listed
      rw [listed.1] at start
      exact absurd rfl start
  | keyword k =>
    cases k
    all_goals
      simp only [fixedSpellings, Keyword.spellings, Keyword.word, List.mem_cons, List.not_mem_nil, or_false,
        String.ofList_eq, String.reduceToList, List.cons.injEq] at listed
    case varKw | nilKw => rcases listed with ⟨rfl, -⟩ | ⟨rfl, -⟩ <;> exact absurd rfl start
    case andKw | orKw =>
      rcases listed with ⟨rfl, rfl⟩ | ⟨rfl, rfl⟩
      · exact absurd rfl start
      · exact Nat.le_refl 2
    case notKw =>
      rcases listed with ⟨rfl, -⟩ | ⟨-, rfl⟩
      · exact absurd rfl start
      · exact absurd rfl alone
    all_goals
      rw [listed.1] at start
      exact absurd rfl start
  | punct p =>
    cases p
    all_goals
      simp only [fixedSpellings, Punct.spellings, Punct.symbol, List.mem_cons, List.not_mem_nil, or_false,
        String.ofList_eq, String.reduceToList, List.cons.injEq] at listed
    case bangEq => rcases listed with ⟨rfl, rfl⟩ | ⟨rfl, rfl⟩ <;> exact Nat.le_refl 2
    case plusEq | minusEq | starEq | slashEq | eqEq | ltEq | gtEq =>
      obtain ⟨rfl, rfl⟩ := listed
      exact Nat.le_refl 2
    all_goals exact absurd listed.2 alone

theorem whole_longest (digits : ∀ d ∈ c :: cs, Number.isDigit d = true) :
    (c :: cs).length ≤ (lexeme c (cs ++ rest)).text.length := by
  have taken : (c :: (cs ++ rest)).takeWhile Number.isDigit = c :: cs ++ rest.takeWhile Number.isDigit := by
    rw [← List.cons_append, List.takeWhile_append_of_pos digits]
  rw [lexeme_digit (digits c List.mem_cons_self)]
  by_cases fraction :
      ∃ d more, (c :: (cs ++ rest)).dropWhile Number.isDigit = '.' :: d :: more ∧ Number.isDigit d = true
  · obtain ⟨d, more, point, decimal⟩ := fraction
    rw [numberLexeme_of_fraction point decimal, taken]
    simp only [Number.Numeral.text, List.length_append]
    omega
  · rw [numberLexeme_of_whole fraction, taken]
    simp only [Number.Numeral.text, List.length_append]
    omega

theorem fraction_longest (digits : ∀ d ∈ c :: cs, Number.isDigit d = true) (goes : fs ≠ [])
    (decimals : ∀ d ∈ fs, Number.isDigit d = true) :
    (c :: cs ++ '.' :: fs).length ≤ (lexeme c (cs ++ '.' :: fs ++ rest)).text.length := by
  rw [lexeme_fraction rest digits goes decimals]
  simp only [Number.Numeral.text, List.length_append, List.length_cons]
  omega

/-- No spelling at the place of a lexeme is longer than the lexeme. -/
theorem lexeme_longest (spelled : Spells kind text)
    (whole : c :: cs = text ++ rest) : text.length ≤ (lexeme c cs).text.length := by
  cases spelled with
  | fixed listed =>
    obtain ⟨d, ds, rfl, -⟩ := ink_of_listed listed
    cases whole
    exact listed_longest listed
  | name start parts free =>
    cases whole
    exact word_longest (.name start parts free) start
  | whole begun digits =>
    obtain ⟨d, ds, rfl⟩ := List.exists_cons_of_ne_nil begun
    cases whole
    exact whole_longest digits
  | fraction begun digits goes decimals =>
    obtain ⟨d, ds, rfl⟩ := List.exists_cons_of_ne_nil begun
    cases whole
    exact fraction_longest digits goes decimals
  | string isQuote stands =>
    rw [List.cons_append] at whole
    cases whole
    rw [lexeme_of_string isQuote stands]

/-! ### Whole texts -/

/-- What may stand between two tokens behind a blank. -/
inductive Gap : List Char → Prop
  | nil : Gap []
  | blank {c : Char} {gap : List Char} (space : isSpace c = true) (rest : Gap gap) : Gap (c :: gap)
  | line {mark : Char} {body gap : List Char} (isMark : mark = '/' ∨ mark = '-') (inside : '\n' ∉ body)
      (rest : Gap gap) : Gap (mark :: mark :: (body ++ '\n' :: gap))
  | block {body gap : List Char} (inside : ¬['*', '/'] <:+: body) (rest : Gap gap) :
      Gap ('/' :: '*' :: (body ++ '*' :: '/' :: gap))

/-- Tokens written one after the other, with a blank and a gap between any two. -/
inductive Written : List TokenKind → List Char → Prop
  | nil : Written [] []
  | last {kind : TokenKind} {text : List Char} (spelled : Spells kind text) : Written [kind] text
  | cons {kind other : TokenKind} {kinds : List TokenKind} {c : Char} {text gap more : List Char}
      (spelled : Spells kind text) (space : isSpace c = true) (between : Gap gap)
      (rest : Written (other :: kinds) more) : Written (kind :: other :: kinds) (text ++ c :: (gap ++ more))

/-- A comment ends with the first closing sign. -/
theorem blockComment_of_closed (inside : ¬['*', '/'] <:+: body) :
    blockComment (body ++ '*' :: '/' :: rest) = (body ++ ['*', '/'], rest) := by
  induction body with
  | nil => rfl
  | cons c body ih =>
    have goes : ¬(c = '*' ∧ (body ++ '*' :: '/' :: rest).head? = some '/') := by
      rintro ⟨rfl, head⟩
      cases body with
      | nil => cases head
      | cons d body =>
        cases head
        exact inside ⟨[], body, rfl⟩
    have later : ¬['*', '/'] <:+: body := fun infixed => inside (List.infix_cons infixed)
    rw [List.cons_append, blockComment_cons goes, ih later]
    rfl

/-- A comment that a doubled mark begins ends before its newline. -/
theorem lexeme_of_line {mark : Char} (isMark : mark = '/' ∨ mark = '-') (inside : '\n' ∉ body) :
    lexeme mark (mark :: (body ++ '\n' :: rest)) = ⟨.comment, mark :: mark :: body, '\n' :: rest⟩ := by
  have goes : ∀ c ∈ mark :: mark :: body, decide (c ≠ '\n') = true := by
    intro c mem
    apply decide_eq_true
    rintro rfl
    rw [List.mem_cons, List.mem_cons] at mem
    rcases mem with rfl | rfl | mem
    · rcases isMark with mark | mark <;> cases mark
    · rcases isMark with mark | mark <;> cases mark
    · exact inside mem
  have comment : lexeme mark (mark :: (body ++ '\n' :: rest)) =
      lineComment ((mark :: mark :: body) ++ '\n' :: rest) := by
    rcases isMark with rfl | rfl <;> rfl
  rw [comment, lineComment, List.takeWhile_append_of_pos goes, List.dropWhile_append_of_pos goes]
  simp

/-- A gap gives no token. -/
theorem scan_gap {gap : List Char} (p : Pos) (between : Gap gap) :
    scan p (gap ++ rest) = scan (p.afterAll gap) rest := by
  induction between generalizing p with
  | nil => rfl
  | blank space _ ih =>
    rw [List.cons_append, scan_space p space, ih]
    rfl
  | @line mark body gap isMark inside _ ih =>
    have ink : isSpace mark = false := by rcases isMark with rfl | rfl <;> rfl
    rw [List.cons_append, List.cons_append, List.append_assoc, List.cons_append, scan_lexeme p ink,
      lexeme_of_line isMark inside, Scan.behind, scan_space _ rfl, ih]
    simp
  | @block body gap inside _ ih =>
    have comment : lexeme '/' ('*' :: (body ++ '*' :: '/' :: (gap ++ rest))) =
        ⟨.comment, '/' :: '*' :: (body ++ ['*', '/']), gap ++ rest⟩ := by
      rw [lexeme_slash, if_neg (by simp), List.head?_cons, if_pos rfl, List.tail_cons,
        blockComment_of_closed inside]
    rw [List.cons_append, List.cons_append, List.append_assoc, List.cons_append, List.cons_append,
      scan_lexeme p rfl, comment, Scan.behind, ih]
    simp

/-- A spelling in front of an edge gives its token. -/
theorem scan_of_spells (p : Pos) (spelled : Spells kind text) (edge : Edge rest) :
    scan p (text ++ rest) = (scan (p.afterAll text) rest).behind p (.token kind) := by
  obtain ⟨c, cs, rfl, ink, read⟩ := lexeme_of_spells spelled edge
  rw [List.cons_append, scan_lexeme p ink, read]

theorem scan_of_written {kinds : List TokenKind} (p : Pos) (written : Written kinds text) :
    (scan p text).faults = [] ∧ (scan p text).tokens.map Token.kind = kinds := by
  induction written generalizing p with
  | nil => simp [scan]
  | @last kind text spelled =>
    rw [← List.append_nil text, scan_of_spells p spelled .nil]
    simp [scan, Scan.behind]
  | @cons kind other kinds c text gap more spelled space between _ ih =>
    have edge : Edge (c :: (gap ++ more)) := by
      intro d head
      cases head
      exact space
    rw [scan_of_spells p spelled edge, scan_space _ space, scan_gap _ between]
    obtain ⟨clean, same⟩ := ih ((((p.afterAll text).after c).afterAll gap))
    exact ⟨clean, congrArg (kind :: ·) same⟩

/-- Reading undoes writing: whatever the tokens, their spellings and the gaps between them, the text is
    read as these tokens and nothing else. -/
theorem tokenize_written {kinds : List TokenKind} {text : List Char} (written : Written kinds text) :
    ∃ stream, tokenize (String.ofList text) = .ok stream ∧ stream.tokens.map Token.kind = kinds := by
  obtain ⟨clean, same⟩ := scan_of_written .start written
  refine ⟨⟨(scan .start text).tokens, (scan .start text).stop⟩, ?_, same⟩
  simp [tokenize, clean]

/-- A text between quotes, with an escape for each character that has one. -/
def quoted (quote : Char) (content : List Char) : List Char :=
  let escape (c : Char) : List Char :=
    match escapes.find? (·.2 = c) with
    | some (e, _) => ['\\', e]
    | none => [c]
  quote :: (content.flatMap escape ++ [quote])

/-- Every text has a spelling, in either kind of quotes. -/
theorem spells_quoted (isQuote : quote = '"' ∨ quote = '\'') (content : List Char) :
    Spells (.string (String.ofList content)) (quoted quote content) := by
  apply Spells.string isQuote
  induction content with
  | nil => exact .nil
  | cons c content ih =>
    rw [List.flatMap_cons]
    split
    case h_1 e d found =>
      have same : d = c := by simpa using List.find?_some found
      subst same
      exact .escape (List.mem_of_find?_eq_some found) ih
    case h_2 unlisted =>
      have plain : ∀ pair ∈ escapes, pair.2 ≠ c := by simpa using unlisted
      refine .char ?_ ?_ ?_ ih
      · exact (plain ('n', '\n') (by decide)).symm
      · rcases isQuote with rfl | rfl
        · exact (plain ('"', '"') (by decide)).symm
        · exact (plain ('\'', '\'') (by decide)).symm
      · exact (plain ('\\', '\\') (by decide)).symm

/-- A text with comments in its gaps, second spellings and an escaped string. -/
theorem tokenize_written_mixed :
    let kinds : List TokenKind :=
      [.keyword .varKw, .ident "_x1", .punct .bangEq, .number (Number.Numeral.value ⟨['1'], some ['5'], none⟩),
        .string "é\n'"]
    let text := "let _x1 /***/ ~= -- c\n 1.5\t'é\\n\\''".toList
    Written kinds text ∧
      ∃ stream, tokenize (String.ofList text) = .ok stream ∧ stream.tokens.map Token.kind = kinds := by
  intro kinds text
  have string : Written [.string "é\n'"] "'é\\n\\''".toList := .last (spells_quoted (.inr rfl) ['é', '\n', '\''])
  have decimals : Spells (.number (Number.Numeral.value ⟨['1'], some ['5'], none⟩)) "1.5".toList :=
    .fraction (by decide) (List.all_eq_true.mp rfl) (by decide) (List.all_eq_true.mp rfl)
  have number := Written.cons decimals (rfl : isSpace '\t' = true) .nil string
  have space : Gap " ".toList := .blank rfl .nil
  have line : Gap "-- c\n ".toList := .line (.inr rfl) (by decide : '\n' ∉ " c".toList) space
  have unequal := Written.cons (.fixed (by decide) : Spells (.punct .bangEq) "~=".toList)
    (rfl : isSpace ' ' = true) line number
  have block : Gap "/***/ ".toList := .block (by decide : ¬['*', '/'] <:+: "*".toList) space
  have word : Spells (.ident "_x1") "_x1".toList :=
    spells_ofWord (rfl : isNameStart '_' = true) (List.all_eq_true.mp (rfl : "x1".toList.all isNamePart = true))
  have name := Written.cons word (rfl : isSpace ' ' = true) block unequal
  have written : Written kinds text := .cons (.fixed (by decide) : Spells (.keyword .varKw) "let".toList)
    (rfl : isSpace ' ' = true) .nil name
  exact ⟨written, tokenize_written written⟩

end Lexer

end Sketch
