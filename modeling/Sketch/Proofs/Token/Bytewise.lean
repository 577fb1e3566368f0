import Sketch.Proofs.Text.Bytes
import Sketch.Proofs.Token.Lexemes

/-!
The lexer at work on bytes. It counts a column for each byte that begins a character, takes the content of a string
from its bytes and looks up an unknown character in the text. Its tokens and faults are those of the characters.
-/

namespace Sketch

open Text (bytes charBytes behind? isContinuation charBytes_eq bytes_cons_of_ascii span_bytes takeWhile_bytes
  bytes_takeWhile uniform_of_onlyAscii onlyAscii_isNamePart onlyAscii_isNameStart
  onlyAscii_isDigit)
open ErrorLine (byteSize byteLength)

/-- The place behind a byte that stands at `p`. -/
def Pos.afterByte (p : Pos) (b : Char) : Pos :=
  if b = '\n' then ⟨p.line + 1, 1⟩ else if isContinuation b then p else ⟨p.line, p.column + 1⟩

def Pos.afterBytes (p : Pos) (bs : List Char) : Pos := bs.foldl afterByte p

namespace Lexer

/-- The text that has the given bytes. -/
def decode? (bs : List Char) : Option String := String.fromUTF8? (bs.map Char.toUInt8).toByteArray

/-- A string literal from its opening quote on, unless its content is no text. -/
def stringLexeme? (quote : Char) (bs : List Char) : Option Lexeme :=
  let body := stringBody quote bs
  let lex (outcome : Outcome) : Lexeme := ⟨outcome, quote :: body.text, body.rest⟩
  if body.closed then
    match body.badEscape with
    | some (before, b) => some (lex (.fault (.unknownEscape b) (quote :: before)))
    | none => (decode? body.content).map fun content => lex (.token (.string content))
  else some (lex (.fault .unterminatedString []))

/-- A byte that starts no token. Its character is looked up in the text. -/
def strayLexeme (source : List Char) (b : Char) (bs : List Char) : Lexeme :=
  let c := ((behind? source (byteLength source - (b :: bs).length)).bind (·.head?)).getD (Char.ofNat 0xfffd)
  ⟨.fault (.unexpectedChar c) [], [b], bs.drop (byteSize c - 1)⟩

/-- Whether a byte starts a token other than a string, or a comment. -/
def startsLexeme (b : Char) : Bool := b ∈ '-' :: '/' :: symbols || Number.isDigit b || isNameStart b

/-- The lexeme at the start of `b :: bs`, the last bytes of a text. -/
def byteLexeme? (source : List Char) (b : Char) (bs : List Char) : Option Lexeme :=
  if b = '"' ∨ b = '\'' then stringLexeme? b bs
  else if startsLexeme b then some (lexeme b bs)
  else some (strayLexeme source b bs)

theorem byteLexeme?_rest_lt {source bs : List Char} {b : Char} {lex : Lexeme}
    (read : byteLexeme? source b bs = some lex) : lex.rest.length < (b :: bs).length := by
  rw [List.length_cons, Nat.lt_succ_iff]
  rw [byteLexeme?.eq_def] at read
  split at read
  · have whole := congrArg List.length (stringBody_append b bs)
    rw [List.length_append] at whole
    have rest : lex.rest = (stringBody b bs).rest := by
      rw [stringLexeme?] at read
      split at read
      · split at read
        · cases read
          rfl
        · obtain ⟨content, -, rfl⟩ := Option.map_eq_some_iff.mp read
          rfl
      · cases read
        rfl
    rw [rest]
    omega
  · split at read
    · cases read
      exact Nat.lt_succ_iff.mp (lexeme_rest_lt b bs)
    · cases read
      rw [strayLexeme, List.length_drop]
      exact Nat.sub_le _ _

/-- A lexeme of a given outcome in front of what was read behind it. -/
def Scan.behindBytes (p : Pos) (outcome : Outcome) (next : Scan) : Scan :=
  match outcome with
  | .token kind => { next with tokens := ⟨kind, p⟩ :: next.tokens }
  | .comment => next
  | .fault fault before => { next with faults := ⟨fault, p.afterBytes before⟩ :: next.faults }

/-- Reads all lexemes of the last bytes of a text, the first of which stands at `p`. -/
def scanBytes? (source : List Char) (p : Pos) (bs : List Char) : Option Scan :=
  match bs with
  | [] => some ⟨[], [], p⟩
  | b :: bs =>
    if isSpace b then scanBytes? source (p.afterByte b) bs
    else
      match read : byteLexeme? source b bs with
      | none => none
      | some lex =>
        have : lex.rest.length < bs.length + 1 := byteLexeme?_rest_lt read
        (scanBytes? source (p.afterBytes lex.text) lex.rest).map (.behindBytes p lex.outcome)
termination_by bs.length

/-- The tokens of a text or all its faults, read from its bytes. -/
def tokenize? (source : String) : Option (Except (List Diagnostic) TokenStream) :=
  (scanBytes? source.toList .start (bytes source.toList)).map fun result =>
    if result.faults.isEmpty then .ok ⟨result.tokens, result.stop⟩ else .error result.faults

/-! ### Places -/

section Places

variable {c : Char} {cs bs : List Char} (p : Pos)

theorem afterBytes_append (bs ds : List Char) : p.afterBytes (bs ++ ds) = (p.afterBytes bs).afterBytes ds :=
  List.foldl_append

theorem afterBytes_continuation (inside : ∀ b ∈ bs, isContinuation b = true) : p.afterBytes bs = p := by
  induction bs with
  | nil => rfl
  | cons b bs ih =>
    rw [List.forall_mem_cons] at inside
    have other : b ≠ '\n' := by
      rintro rfl
      cases inside.1
    have here : p.afterByte b = p := by rw [Pos.afterByte, if_neg other, if_pos inside.1]
    exact (congrArg (Pos.afterBytes · bs) here).trans (ih inside.2)

theorem afterByte_leadByteChar (c : Char) : p.afterByte (leadByteChar c) = p.after c := by
  obtain ⟨more, whole, -⟩ := charBytes_eq c
  have newline : leadByteChar c = '\n' ↔ c = '\n' := by
    have same := Text.head?_bytes (d := '\n') (by decide) [c]
    simpa [bytes, whole] using same
  rw [Pos.afterByte, Pos.after]
  simp only [newline, Text.isContinuation_leadByteChar, Bool.false_eq_true, if_false]

theorem afterBytes_bytes (cs : List Char) : p.afterBytes (bytes cs) = p.afterAll cs := by
  induction cs generalizing p with
  | nil => rfl
  | cons c cs ih =>
    obtain ⟨more, whole, inside, -⟩ := charBytes_eq c
    rw [Text.bytes_cons, whole, List.cons_append, Pos.afterAll_cons, ← ih, ← afterByte_leadByteChar]
    exact (afterBytes_append _ more (bytes cs)).trans (congrArg (Pos.afterBytes · _) (afterBytes_continuation _ inside))

end Places

/-! ### Lexemes -/

/-- A lexeme as it is read from bytes. -/
def Lexeme.inBytes (lex : Lexeme) : Lexeme where
  outcome :=
    match lex.outcome with
    | .fault fault before => .fault fault (bytes before)
    | outcome => outcome
  text := bytes lex.text
  rest := bytes lex.rest

section Lexemes

variable {c : Char} {cs : List Char}

theorem punct_bytes (ascii : c.toNat < 128) (symbol : Punct) :
    punct symbol [c] (bytes cs) = (punct symbol [c] cs).inBytes := by
  rw [Lexeme.inBytes, punct, punct, bytes_cons_of_ascii ascii]
  rfl

theorem withEq_bytes (ascii : c.toNat < 128) (alone assigned : TokenKind) :
    withEq c alone assigned (bytes cs) = (withEq c alone assigned cs).inBytes := by
  by_cases eq : cs.head? = some '='
  · obtain ⟨rest, rfl⟩ := List.head?_eq_some_iff.mp eq
    rw [bytes_cons_of_ascii (by decide), withEq, withEq, Lexeme.inBytes, bytes_cons_of_ascii ascii]
    rfl
  · rw [withEq_eq eq, withEq_eq (by rwa [Ne, Text.head?_bytes (by decide)]), Lexeme.inBytes,
      bytes_cons_of_ascii ascii]
    rfl

theorem pairOnly_bytes (ascii : c.toNat < 128) {second : Char} (ascii' : second.toNat < 128) (kind : TokenKind) :
    pairOnly c second kind (bytes cs) = (pairOnly c second kind cs).inBytes := by
  by_cases eq : cs.head? = some second
  · obtain ⟨rest, rfl⟩ := List.head?_eq_some_iff.mp eq
    rw [bytes_cons_of_ascii ascii', pairOnly, pairOnly, if_pos rfl, if_pos rfl, Lexeme.inBytes,
      bytes_cons_of_ascii ascii, bytes_cons_of_ascii ascii']
    rfl
  · rw [pairOnly_eq eq, pairOnly_eq (by rwa [Ne, Text.head?_bytes ascii']), Lexeme.inBytes,
      bytes_cons_of_ascii ascii]
    rfl

theorem lineComment_bytes (cs : List Char) : lineComment (bytes cs) = (lineComment cs).inBytes := by
  have uniform (c : Char) (wide : ¬c.toNat < 128) (b : Char) (part : b ∈ charBytes c) :
      decide (b ≠ '\n') = decide (c ≠ '\n') := by
    have above := Text.le_of_mem_charBytes wide part
    have other : b ≠ '\n' := by
      rintro rfl
      exact absurd above (by decide)
    have other' : c ≠ '\n' := by
      rintro rfl
      exact wide (by decide)
    simp [other, other']
  obtain ⟨text, rest⟩ := span_bytes uniform cs
  rw [lineComment, text, rest]
  rfl

theorem blockComment_high {high : List Char} (above : ∀ b ∈ high, 128 ≤ b.toNat) (bs : List Char) :
    blockComment (high ++ bs) = (high ++ (blockComment bs).1, (blockComment bs).2) := by
  induction high with
  | nil => rfl
  | cons b high ih =>
    rw [List.forall_mem_cons] at above
    have inside : ¬(b = '*' ∧ (high ++ bs).head? = some '/') := by
      rintro ⟨rfl, -⟩
      exact absurd above.1 (by decide)
    rw [List.cons_append, blockComment_cons inside, ih above.2]
    rfl

/-- A comment ends at the same place in bytes. -/
theorem blockComment_bytes (cs : List Char) :
    blockComment (bytes cs) = (bytes (blockComment cs).1, bytes (blockComment cs).2) := by
  fun_induction blockComment cs with
  | case1 => rfl
  | case2 rest =>
    rw [bytes_cons_of_ascii (by decide), bytes_cons_of_ascii (by decide)]
    rfl
  | case3 c cs open_ text after read ih =>
    have inside : ¬(c = '*' ∧ cs.head? = some '/') := by
      rintro ⟨rfl, slash⟩
      obtain ⟨rest, rfl⟩ := List.head?_eq_some_iff.mp slash
      exact open_ rest rfl rfl
    rw [read] at ih
    by_cases ascii : c.toNat < 128
    · rw [← Text.head?_bytes (by decide)] at inside
      rw [bytes_cons_of_ascii ascii, blockComment_cons inside, ih, bytes_cons_of_ascii ascii]
    · rw [Text.bytes_cons, blockComment_high (fun b part => Text.le_of_mem_charBytes ascii part), ih]
      rfl

theorem wordLexeme_bytes (cs : List Char) : wordLexeme (bytes cs) = (wordLexeme cs).inBytes := by
  have rest := (span_bytes (uniform_of_onlyAscii onlyAscii_isNamePart) cs).2
  simp only [wordLexeme, Lexeme.inBytes, takeWhile_bytes onlyAscii_isNamePart, bytes_takeWhile onlyAscii_isNamePart,
    rest]

/-- A number is read from bytes as from characters. -/
theorem numberLexeme_bytes (cs : List Char) : numberLexeme (bytes cs) = (numberLexeme cs).inBytes := by
  have digits := bytes_takeWhile onlyAscii_isDigit
  have span := span_bytes (uniform_of_onlyAscii onlyAscii_isDigit)
  by_cases point : ∃ d rest, cs.dropWhile Number.isDigit = '.' :: d :: rest ∧ Number.isDigit d = true
  · obtain ⟨d, rest, point, digit⟩ := point
    have ascii := onlyAscii_isDigit d digit
    have point' : (bytes cs).dropWhile Number.isDigit = '.' :: d :: bytes rest := by
      rw [(span cs).2, point, bytes_cons_of_ascii (by decide), bytes_cons_of_ascii ascii]
    have fraction := span (d :: rest)
    rw [bytes_cons_of_ascii ascii] at fraction
    rw [numberLexeme_of_fraction point digit, numberLexeme_of_fraction point' digit, (span cs).1, digits, fraction.1,
      fraction.2, digits]
    simp only [Lexeme.inBytes, Number.Numeral.text, List.append_nil, Text.bytes_append, digits]
    rw [bytes_cons_of_ascii (by decide), digits]
  · have point' : ¬∃ d rest, (bytes cs).dropWhile Number.isDigit = '.' :: d :: rest ∧ Number.isDigit d = true := by
      rintro ⟨d, rest', found, digit⟩
      rw [(span cs).2] at found
      obtain ⟨after, dot⟩ := List.head?_eq_some_iff.mp ((Text.head?_bytes (by decide) _).mp (congrArg List.head? found))
      rw [dot, bytes_cons_of_ascii (by decide)] at found
      obtain ⟨rest, next⟩ := List.head?_eq_some_iff.mp
        ((Text.head?_bytes (onlyAscii_isDigit d digit) _).mp (congrArg List.head? (List.cons.inj found).2))
      exact point ⟨d, rest, next ▸ dot, digit⟩
    rw [numberLexeme_of_whole point, numberLexeme_of_whole point', (span cs).1, (span cs).2, digits]
    simp only [Lexeme.inBytes, Number.Numeral.text, List.append_nil, digits]

/-- What starts with a character of its own is read from bytes as from characters. -/
theorem lexeme_bytes (starts : startsLexeme c = true) (cs : List Char) :
    lexeme c (bytes cs) = (lexeme c cs).inBytes := by
  rw [startsLexeme, Bool.or_eq_true, Bool.or_eq_true, decide_eq_true_eq] at starts
  rcases starts with (symbol | digit) | start
  · rw [lexeme.eq_def c (bytes cs)]
    split
    case h_1 | h_2 | h_3 | h_4 | h_5 | h_6 | h_7 | h_8 | h_9 | h_10 | h_11 => exact punct_bytes (by decide) _
    case h_12 | h_13 | h_14 | h_15 | h_16 | h_17 => exact withEq_bytes (by decide) _ _
    case h_18 | h_19 | h_20 => exact pairOnly_bytes (by decide) (by decide) _
    case h_21 =>
      change lexeme '-' (bytes cs) = _
      simp only [lexeme_minus, Text.head?_bytes (d := '-') (by decide)]
      split
      · rw [← bytes_cons_of_ascii (by decide), lineComment_bytes]
      · exact withEq_bytes (by decide) _ _
    case h_22 =>
      change lexeme '/' (bytes cs) = _
      simp only [lexeme_slash, Text.head?_bytes (d := '/') (by decide), Text.head?_bytes (d := '*') (by decide)]
      split
      · rw [← bytes_cons_of_ascii (by decide), lineComment_bytes]
      · split
        case isTrue star =>
          obtain ⟨body, rfl⟩ := List.head?_eq_some_iff.mp star
          rw [bytes_cons_of_ascii (by decide), List.tail_cons, List.tail_cons, blockComment_bytes, Lexeme.inBytes,
            bytes_cons_of_ascii (by decide), bytes_cons_of_ascii (by decide)]
        case isFalse => exact withEq_bytes (by decide) _ _
    case h_23 => simp_all [symbols]
  · rw [lexeme_digit digit, lexeme_digit digit, ← bytes_cons_of_ascii (onlyAscii_isDigit c digit), numberLexeme_bytes]
  · rw [lexeme_name start, lexeme_name start, ← bytes_cons_of_ascii (onlyAscii_isNameStart c start), wordLexeme_bytes]

end Lexemes

/-! ### Strings -/

/-- What is read of a string from bytes, where no escape is bad or some is. -/
structure StringBody.InBytes (body body' : StringBody) : Prop where
  content : body.badEscape = none → body'.content = bytes body.content
  badEscape : body'.badEscape = body.badEscape.map fun (before, c) => (bytes before, leadByteChar c)
  closed : body'.closed = body.closed
  text : body'.text = bytes body.text
  rest : body'.rest = bytes body.rest

section Strings

variable {quote c : Char} {cs : List Char} {body body' : StringBody}

theorem StringBody.InBytes.prepend (same : body.InBytes body') (read content : List Char) :
    (body.prepend read content).InBytes (body'.prepend (bytes read) (bytes content)) where
  content := by
    intro clean
    have clean : body.badEscape = none := by simpa [StringBody.prepend] using clean
    simp [StringBody.prepend, same.content clean, Text.bytes_append]
  badEscape := by
    simp only [StringBody.prepend, same.badEscape]
    cases body.badEscape with
    | none => rfl
    | some bad => simp [Text.bytes_append]
  closed := same.closed
  text := by simp [StringBody.prepend, same.text, Text.bytes_append]
  rest := same.rest

theorem ordinary_of_high (isQuote : quote = '"' ∨ quote = '\'') (high : 128 ≤ c.toNat) :
    c ≠ '\n' ∧ c ≠ quote ∧ c ≠ '\\' := by
  refine ⟨?_, ?_, ?_⟩ <;> rintro rfl
  · exact absurd high (by decide)
  · rcases isQuote with rfl | rfl <;> exact absurd high (by decide)
  · exact absurd high (by decide)

/-- Bytes that mean nothing to a string are its content. -/
theorem stringBody_plain {plain : List Char} (ordinary : ∀ b ∈ plain, b ≠ '\n' ∧ b ≠ quote ∧ b ≠ '\\')
    (bs : List Char) :
    stringBody quote (plain ++ bs) = (stringBody quote bs).prepend plain plain := by
  induction plain with
  | nil => simp [StringBody.prepend]
  | cons b plain ih =>
    rw [List.forall_mem_cons] at ordinary
    obtain ⟨⟨newline, close, escape⟩, others⟩ := ordinary
    rw [List.cons_append, stringBody_char newline close escape, ih others]
    simp [StringBody.prepend, Function.comp_def]

theorem stringBody_newline (quote : Char) (cs : List Char) :
    stringBody quote ('\n' :: cs) = ⟨[], none, false, [], '\n' :: cs⟩ := by
  cases cs <;> rw [stringBody, if_pos rfl]

theorem ascii_of_escaped? {e d : Char} (known : escaped? e = some d) : e.toNat < 128 ∧ d.toNat < 128 := by
  rw [escaped?.eq_def] at known
  split at known <;> cases known <;> decide

/-- A bad escape is named by its first byte. The others are read as content. -/
theorem stringBody_bytes_bad (isQuote : quote = '"' ∨ quote = '\'') {e : Char} (unknown : escaped? e = none)
    (rest : (stringBody quote cs).InBytes (stringBody quote (bytes cs))) :
    (stringBody quote ('\\' :: e :: cs)).InBytes (stringBody quote (bytes ('\\' :: e :: cs))) := by
  have close : '\\' ≠ quote := by rcases isQuote with rfl | rfl <;> decide
  obtain ⟨more, whole, inside, lead⟩ := charBytes_eq e
  have unknown' : escaped? (leadByteChar e) = none := by
    split at lead
    · rwa [lead]
    · rw [Option.eq_none_iff_forall_ne_some]
      intro d known
      have small := (ascii_of_escaped? known).1
      omega
  have plain (b : Char) (part : b ∈ more) : b ≠ '\n' ∧ b ≠ quote ∧ b ≠ '\\' := by
    have goesOn := inside b part
    rw [isContinuation, Bool.and_eq_true, decide_eq_true_eq] at goesOn
    exact ordinary_of_high isQuote goesOn.1
  rw [bytes_cons_of_ascii (by decide), Text.bytes_cons, whole, List.cons_append, stringBody, stringBody,
    if_neg (by decide), if_neg close, if_pos rfl, if_neg (by decide), if_neg close, if_pos rfl, stringBody_plain plain]
  simp only [unknown, unknown']
  constructor
  · intro clean
    cases clean
  · rfl
  · exact rest.closed
  · simp [StringBody.prepend, rest.text, whole, Text.charBytes_of_ascii (c := '\\') (by decide)]
  · exact rest.rest

/-- The inside of a string is read from bytes as from characters. -/
theorem stringBody_bytes (isQuote : quote = '"' ∨ quote = '\'') (cs : List Char) :
    (stringBody quote cs).InBytes (stringBody quote (bytes cs)) := by
  have ascii : quote.toNat < 128 := by rcases isQuote with rfl | rfl <;> decide
  -- A character that means nothing to a string has no byte that does.
  have plain {c : Char} (newline : c ≠ '\n') (close : c ≠ quote) (escape : c ≠ '\\') (b : Char)
      (part : b ∈ charBytes c) :
      b ≠ '\n' ∧ b ≠ quote ∧ b ≠ '\\' := by
    by_cases small : c.toNat < 128
    · rw [Text.charBytes_of_ascii small, List.mem_singleton] at part
      subst part
      exact ⟨newline, close, escape⟩
    · exact ordinary_of_high isQuote (Text.le_of_mem_charBytes small part)
  induction length : cs.length using Nat.strongRecOn generalizing cs with
  | ind n ih =>
    subst length
    match cs with
    | [] => exact ⟨fun _ => rfl, rfl, rfl, rfl, rfl⟩
    | c :: cs =>
      by_cases newline : c = '\n'
      · subst newline
        rw [bytes_cons_of_ascii (by decide), stringBody_newline, stringBody_newline]
        exact ⟨fun _ => rfl, rfl, rfl, rfl, (bytes_cons_of_ascii (by decide)).symm⟩
      by_cases close : c = quote
      · subst close
        rw [bytes_cons_of_ascii ascii, stringBody_quote isQuote, stringBody_quote isQuote]
        have alone : bytes [c] = [c] := bytes_cons_of_ascii ascii
        exact ⟨fun _ => rfl, rfl, rfl, alone.symm, rfl⟩
      by_cases escape : c = '\\'
      · subst escape
        match cs with
        | [] =>
          rw [bytes_cons_of_ascii (by decide)]
          simp only [bytes, List.flatMap_nil, stringBody, if_neg newline, if_neg close]
          exact ⟨fun _ => rfl, rfl, rfl, rfl, rfl⟩
        | e :: cs =>
          have rest := ih cs.length (by simp only [List.length_cons]; omega) cs rfl
          cases known : escaped? e with
          | none => exact stringBody_bytes_bad isQuote known rest
          | some d =>
            obtain ⟨small, small'⟩ := ascii_of_escaped? known
            rw [bytes_cons_of_ascii (by decide), bytes_cons_of_ascii small, stringBody_escape isQuote known,
              stringBody_escape isQuote known]
            have same := rest.prepend ['\\', e] [d]
            rwa [bytes_cons_of_ascii (by decide), bytes_cons_of_ascii small, bytes_cons_of_ascii small'] at same
      · rw [stringBody_char newline close escape, Text.bytes_cons, stringBody_plain (plain newline close escape)]
        simpa [bytes] using (ih cs.length (Nat.lt_succ_self _) cs rfl).prepend [c] [c]

theorem decode?_bytes (cs : List Char) : decode? (bytes cs) = some (String.ofList cs) := by
  have whole : (bytes cs).map Char.toUInt8 = cs.flatMap String.utf8EncodeChar := by
    rw [bytes, List.map_flatMap]
    congr 1
    funext c
    rw [charBytes, List.map_map]
    exact (List.map_congr_left fun b _ => UInt8.toNat_inj.mp (Nat.mod_eq_of_lt b.toNat_lt)).trans (List.map_id _)
  rw [decode?, whole, String.fromUTF8?]
  exact dif_pos ByteArray.isValidUTF8_utf8Encode

/-- A string is read from bytes as from characters. -/
theorem stringLexeme?_bytes (isQuote : quote = '"' ∨ quote = '\'') (cs : List Char) :
    stringLexeme? quote (bytes cs) = some (stringLexeme quote cs).inBytes := by
  have ascii : quote.toNat < 128 := by rcases isQuote with rfl | rfl <;> decide
  have same := stringBody_bytes isQuote cs
  simp only [stringLexeme?, stringLexeme, same.closed, same.badEscape, same.text, same.rest]
  split
  case isTrue =>
    cases bad : (stringBody quote cs).badEscape with
    | none =>
      rw [Option.map_none, same.content bad, decode?_bytes, Option.map_some, Lexeme.inBytes, bytes_cons_of_ascii ascii]
    | some escape =>
      obtain ⟨before, e⟩ := escape
      simp only [Option.map_some, Lexeme.inBytes, bytes_cons_of_ascii ascii]
  case isFalse =>
    rw [Lexeme.inBytes, bytes_cons_of_ascii ascii]
    rfl

end Strings

/-! ### Whole texts -/

section Texts

variable {c : Char} {before cs : List Char}

/-- The character that a byte starts is found in the text. -/
theorem strayLexeme_eq {more : List Char} (whole : charBytes c = leadByteChar c :: more) :
    strayLexeme (before ++ c :: cs) (leadByteChar c) (more ++ bytes cs) =
      ⟨.fault (.unexpectedChar c) [], [leadByteChar c], bytes cs⟩ := by
  have size : more.length + 1 = byteSize c := by rw [← Text.length_charBytes, whole, List.length_cons]
  have ahead : (leadByteChar c :: (more ++ bytes cs)).length = byteLength (c :: cs) := by
    rw [← List.cons_append, ← whole, ← Text.bytes_cons, Text.length_bytes]
  have start : byteLength (before ++ c :: cs) - byteLength (c :: cs) = byteLength before := by
    rw [Text.byteLength_append, Nat.add_sub_cancel]
  rw [strayLexeme, ahead, start, Text.behind?_append, Option.bind_some, List.head?_cons, Option.getD_some, ← size,
    Nat.add_sub_cancel, List.drop_left]

theorem onlyAscii_isSpace : Text.OnlyAscii isSpace := by
  intro c space
  simp only [isSpace, Bool.or_eq_true, decide_eq_true_eq] at space
  rcases space with ((rfl | rfl) | rfl) | rfl <;> decide

theorem onlyAscii_startsLexeme : Text.OnlyAscii startsLexeme := by
  intro c starts
  simp only [startsLexeme, Bool.or_eq_true, decide_eq_true_eq] at starts
  rcases starts with (symbol | digit) | start
  · have ascii : ('-' :: '/' :: symbols).all (·.toNat < 128) = true := by decide
    simpa using List.all_eq_true.mp ascii c symbol
  · exact onlyAscii_isDigit c digit
  · exact onlyAscii_isNameStart c start

theorem scanBytes?_lexeme {source bs : List Char} {b : Char} {lex : Lexeme} (p : Pos) (space : isSpace b = false)
    (read : byteLexeme? source b bs = some lex) : scanBytes? source p (b :: bs) =
      (scanBytes? source (p.afterBytes lex.text) lex.rest).map (.behindBytes p lex.outcome) := by
  rw [scanBytes?, if_neg (by simp [space])]
  split
  case h_1 none => cases none.symm.trans read
  case h_2 lex' read' =>
    cases read'.symm.trans read
    rfl

theorem behindBytes_inBytes (p : Pos) (lex : Lexeme) (next : Scan) :
    next.behindBytes p lex.inBytes.outcome = next.behind p lex.outcome := by
  rw [Lexeme.inBytes]
  cases lex.outcome with
  | token | comment => rfl
  | fault fault before => simp only [Scan.behindBytes, Scan.behind, afterBytes_bytes]

/-- A lexeme that is read from bytes is the one of the characters. -/
theorem byteLexeme?_bytes (before cs : List Char) (ink : isSpace c = false) :
    ∃ b bs lex, bytes (c :: cs) = b :: bs ∧ isSpace b = false ∧ byteLexeme? (before ++ c :: cs) b bs = some lex ∧
      lex.outcome = (lexeme c cs).inBytes.outcome ∧ lex.rest = bytes (lexeme c cs).rest ∧
      ∀ p : Pos, p.afterBytes lex.text = p.afterAll (lexeme c cs).text := by
  by_cases isQuote : c = '"' ∨ c = '\''
  · refine ⟨c, bytes cs, (lexeme c cs).inBytes, bytes_cons_of_ascii ?_, ink, ?_, rfl, rfl,
      fun p => afterBytes_bytes p _⟩
    · rcases isQuote with rfl | rfl <;> decide
    · rw [byteLexeme?, if_pos isQuote, stringLexeme?_bytes isQuote, lexeme_quote isQuote]
  by_cases starts : startsLexeme c = true
  · refine ⟨c, bytes cs, (lexeme c cs).inBytes, bytes_cons_of_ascii (onlyAscii_startsLexeme c starts), ink, ?_,
      rfl, rfl, fun p => afterBytes_bytes p _⟩
    rw [byteLexeme?, if_neg isQuote, if_pos starts, lexeme_bytes starts]
  -- A character that starts nothing is told by its first byte, which starts nothing either.
  obtain ⟨more, whole, -, lead⟩ := charBytes_eq c
  obtain ⟨isQuote', starts', ink'⟩ : ¬(leadByteChar c = '"' ∨ leadByteChar c = '\'') ∧
      ¬startsLexeme (leadByteChar c) = true ∧ isSpace (leadByteChar c) = false := by
    split at lead
    · rw [lead]
      exact ⟨isQuote, starts, ink⟩
    · refine ⟨?_, fun starts => ?_, Bool.eq_false_iff.mpr fun space => ?_⟩
      · rintro (same | same) <;> rw [same] at lead <;> exact absurd lead (by decide)
      · have small := onlyAscii_startsLexeme _ starts
        omega
      · have small := onlyAscii_isSpace _ space
        omega
  have other : lexeme c cs = ⟨.fault (.unexpectedChar c) [], [c], cs⟩ := by
    simp only [startsLexeme, Bool.or_eq_true, decide_eq_true_eq, not_or] at starts
    rw [lexeme_other starts.1.1, if_neg isQuote, if_neg starts.1.2, if_neg starts.2]
  refine ⟨leadByteChar c, more ++ bytes cs, ⟨.fault (.unexpectedChar c) [], [leadByteChar c], bytes cs⟩,
    ?_, ink', ?_, ?_⟩
  · rw [Text.bytes_cons, whole, List.cons_append]
  · rw [byteLexeme?, if_neg isQuote', if_neg starts', strayLexeme_eq whole]
  · rw [other]
    exact ⟨rfl, rfl, fun p => afterByte_leadByteChar p c⟩

/-- From between two characters on, bytes are read as characters. -/
theorem scanBytes?_eq (p : Pos) (before cs : List Char) :
    scanBytes? (before ++ cs) p (bytes cs) = some (scan p cs) := by
  induction length : cs.length using Nat.strongRecOn generalizing p before cs with
  | ind n ih =>
    subst length
    match cs with
    | [] =>
      rw [scan]
      exact scanBytes?.eq_1 _ _
    | c :: cs =>
      cases ink : isSpace c with
      | true =>
        have ascii := onlyAscii_isSpace c ink
        have here := afterByte_leadByteChar p c
        rw [leadByteChar, if_pos ascii, Char.ofNat_toNat] at here
        rw [bytes_cons_of_ascii ascii, scanBytes?, if_pos ink, here, scan_space p ink, List.append_cons]
        exact ih cs.length (Nat.lt_succ_self _) (p.after c) (before ++ [c]) cs rfl
      | false =>
        obtain ⟨b, bs, lex, split, ink', read, outcome, rest, place⟩ := byteLexeme?_bytes before cs ink
        have goesOn := ih _ (lexeme_rest_lt c cs) (p.afterAll (lexeme c cs).text) (before ++ (lexeme c cs).text) _ rfl
        rw [List.append_assoc, (lexeme_cuts c cs).whole] at goesOn
        rw [split, scanBytes?_lexeme p ink' read, rest, place, goesOn, Option.map_some, outcome, behindBytes_inBytes,
          scan_lexeme p ink]

/-- The lexer that goes from byte to byte always ends, with the tokens or the faults of the text. -/
theorem tokenize?_eq (source : String) : tokenize? source = some (tokenize source) := by
  have read := scanBytes?_eq .start [] source.toList
  rw [List.nil_append] at read
  rw [tokenize?, read]
  rfl

end Texts

end Lexer

end Sketch
