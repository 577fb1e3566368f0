import Sketch.Diagnostic
import Sketch.Number.Numeral

/-!
From text to tokens. One step reads one lexeme: a token, a comment or a character that starts neither. It keeps the
characters that it read, so a position is the place behind all that came before.
-/

namespace Sketch.Lexer

/-- The blanks between lexemes. -/
def isSpace (c : Char) : Bool := c = ' ' || c = '\t' || c = '\r' || c = '\n'

/-- The characters that a name starts with. -/
def isNameStart (c : Char) : Bool := ('a' ≤ c && c ≤ 'z') || ('A' ≤ c && c ≤ 'Z') || c = '_'

/-- The characters that a name goes on with. -/
def isNamePart (c : Char) : Bool := isNameStart c || Number.isDigit c

/-- What a lexeme is. The place of a fault is given by the characters of the lexeme before it. -/
inductive Outcome where
  | token (kind : TokenKind)
  | comment
  | fault (fault : Fault) (before : List Char)
deriving DecidableEq, Repr, Inhabited

/-- A lexeme: what it is, the characters it is made of, and what follows it. -/
structure Lexeme where
  outcome : Outcome
  text : List Char
  rest : List Char
deriving DecidableEq, Repr, Inhabited

/-- The rest of a comment, and what follows its closing `*/`. -/
def blockComment : List Char → List Char × List Char
  | [] => ([], [])
  | '*' :: '/' :: rest => (['*', '/'], rest)
  | c :: rest =>
    let (text, after) := blockComment rest
    (c :: text, after)

/-- The character that an escape stands for. -/
def escaped? : Char → Option Char
  | 'n' => some '\n'
  | 't' => some '\t'
  | 'r' => some '\r'
  | '0' => some (Char.ofNat 0)
  | '"' => some '"'
  | '\'' => some '\''
  | '\\' => some '\\'
  | _ => none

/-- The character whose number is the first byte of the UTF-8 form of `c`. A bad escape is reported
    by it. -/
def leadByteChar (c : Char) : Char :=
  let n := c.toNat
  Char.ofNat
    (if n < 0x80 then n
     else if n < 0x800 then 0xc0 + n / 0x40
     else if n < 0x10000 then 0xe0 + n / 0x1000
     else 0xf0 + n / 0x40000)

/-- A string literal behind its opening quote. -/
structure StringBody where
  /-- The decoded characters. -/
  content : List Char
  /-- The first escape that means nothing: what stands before the escaped character, and it. -/
  badEscape : Option (List Char × Char)
  /-- Whether the closing quote was found. -/
  closed : Bool
  text : List Char
  rest : List Char
deriving DecidableEq, Repr, Inhabited

/-- Puts characters in front of a body that stand for `content`. -/
def StringBody.prepend (read content : List Char) (b : StringBody) : StringBody :=
  { b with
    content := content ++ b.content
    badEscape := b.badEscape.map fun (before, c) => (read ++ before, c)
    text := read ++ b.text }

/-- Reads up to the closing quote, or to the end of the line. -/
def stringBody (quote : Char) : List Char → StringBody
  | [] => ⟨[], none, false, [], []⟩
  | [c] =>
    if c = '\n' then ⟨[], none, false, [], [c]⟩
    else if c = quote then ⟨[], none, true, [c], []⟩
    else ⟨[c], none, false, [c], []⟩
  | c :: e :: rest =>
    if c = '\n' then ⟨[], none, false, [], c :: e :: rest⟩
    else if c = quote then ⟨[], none, true, [c], e :: rest⟩
    else if c = '\\' then
      let body := stringBody quote rest
      match escaped? e with
      | some d => body.prepend [c, e] [d]
      | none => { body.prepend [c, e] [] with badEscape := some ([c], e) }
    else (stringBody quote (e :: rest)).prepend [c] [c]

/-- A string literal from its opening quote on. -/
def stringLexeme (quote : Char) (cs : List Char) : Lexeme :=
  let body := stringBody quote cs
  let outcome : Outcome :=
    if body.closed then
      match body.badEscape with
      | some (before, c) => .fault (.unknownEscape (leadByteChar c)) (quote :: before)
      | none => .token (.string (String.ofList body.content))
    else .fault .unterminatedString []
  ⟨outcome, quote :: body.text, body.rest⟩

/-- A number from its first digit on, with a point if a digit follows. -/
def numberLexeme (cs : List Char) : Lexeme :=
  let (whole, afterWhole) := Number.Numeral.readDigits cs
  match afterWhole with
  | '.' :: d :: rest =>
    if Number.isDigit d then
      let (fraction, after) := Number.Numeral.readDigits (d :: rest)
      let numeral : Number.Numeral := ⟨whole, some fraction, none⟩
      ⟨.token (.number numeral.value), numeral.text, after⟩
    else
      let numeral : Number.Numeral := ⟨whole, none, none⟩
      ⟨.token (.number numeral.value), numeral.text, afterWhole⟩
  | _ =>
    let numeral : Number.Numeral := ⟨whole, none, none⟩
    ⟨.token (.number numeral.value), numeral.text, afterWhole⟩

/-- A name or keyword from its first character on. -/
def wordLexeme (cs : List Char) : Lexeme :=
  let word := cs.takeWhile isNamePart
  ⟨.token (.ofWord (String.ofList word)), word, cs.dropWhile isNamePart⟩

/-- A comment up to the end of its line. -/
def lineComment (cs : List Char) : Lexeme :=
  ⟨.comment, cs.takeWhile (· ≠ '\n'), cs.dropWhile (· ≠ '\n')⟩

def punct (symbol : Punct) (text rest : List Char) : Lexeme :=
  ⟨.token (.punct symbol), text, rest⟩

/-- A symbol that becomes another when `=` follows. -/
def withEq (c : Char) (alone assigned : TokenKind) : List Char → Lexeme
  | '=' :: rest => ⟨.token assigned, [c, '='], rest⟩
  | rest => ⟨.token alone, [c], rest⟩

/-- A symbol that is valid only in front of `second`. -/
def pairOnly (c second : Char) (kind : TokenKind) (rest : List Char) : Lexeme :=
  match rest with
  | d :: after =>
    if d = second then ⟨.token kind, [c, d], after⟩
    else ⟨.fault (.halfOperator (String.ofList [c, second]) (String.ofList [c])) [], [c], rest⟩
  | [] => ⟨.fault (.halfOperator (String.ofList [c, second]) (String.ofList [c])) [], [c], []⟩

/-- The lexeme at the start of `c :: cs`, where `c` is no blank. -/
def lexeme (c : Char) (cs : List Char) : Lexeme :=
  match c with
  | '%' => punct .percent [c] cs
  | ':' => punct .colon [c] cs
  | ',' => punct .comma [c] cs
  | ';' => punct .semicolon [c] cs
  | '.' => punct .dot [c] cs
  | '(' => punct .lparen [c] cs
  | ')' => punct .rparen [c] cs
  | '\x7b' => punct .lbrace [c] cs
  | '\x7d' => punct .rbrace [c] cs
  | '[' => punct .lbracket [c] cs
  | ']' => punct .rbracket [c] cs
  | '+' => withEq c (.punct .plus) (.punct .plusEq) cs
  | '*' => withEq c (.punct .star) (.punct .starEq) cs
  | '=' => withEq c (.punct .eq) (.punct .eqEq) cs
  | '!' => withEq c (.keyword .notKw) (.punct .bangEq) cs
  | '<' => withEq c (.punct .lt) (.punct .ltEq) cs
  | '>' => withEq c (.punct .gt) (.punct .gtEq) cs
  | '~' => pairOnly c '=' (.punct .bangEq) cs
  | '&' => pairOnly c '&' (.keyword .andKw) cs
  | '|' => pairOnly c '|' (.keyword .orKw) cs
  | '-' =>
    match cs with
    | '-' :: _ => lineComment (c :: cs)
    | _ => withEq c (.punct .minus) (.punct .minusEq) cs
  | '/' =>
    match cs with
    | '/' :: _ => lineComment (c :: cs)
    | '*' :: body =>
      let (text, rest) := blockComment body
      ⟨.comment, '/' :: '*' :: text, rest⟩
    | _ => withEq c (.punct .slash) (.punct .slashEq) cs
  | _ =>
    if c = '"' ∨ c = '\'' then stringLexeme c cs
    else if Number.isDigit c then numberLexeme (c :: cs)
    else if isNameStart c then wordLexeme (c :: cs)
    else ⟨.fault (.unexpectedChar c) [], [c], cs⟩

/-- Reading a comment loses nothing. -/
theorem blockComment_append (cs : List Char) : (blockComment cs).1 ++ (blockComment cs).2 = cs := by
  fun_induction blockComment cs <;> simp_all

/-- Reading a string loses nothing. -/
theorem stringBody_append (quote : Char) (cs : List Char) :
    (stringBody quote cs).text ++ (stringBody quote cs).rest = cs := by
  fun_induction stringBody quote cs <;> simp_all +zetaDelta [StringBody.prepend]

/-- A lexeme is cut off the front of a text, and nothing gets lost. -/
structure Lexeme.Cuts (lex : Lexeme) (cs : List Char) : Prop where
  nonempty : lex.text ≠ []
  whole : lex.text ++ lex.rest = cs

section Cuts

variable (c : Char) (cs : List Char)

theorem punct_cuts (symbol : Punct) : (punct symbol [c] cs).Cuts (c :: cs) := ⟨List.cons_ne_nil _ _, rfl⟩

theorem withEq_cuts (alone assigned : TokenKind) : (withEq c alone assigned cs).Cuts (c :: cs) := by
  rw [withEq.eq_def]
  split <;> exact ⟨List.cons_ne_nil _ _, rfl⟩

theorem pairOnly_cuts (second : Char) (kind : TokenKind) : (pairOnly c second kind cs).Cuts (c :: cs) := by
  rw [pairOnly.eq_def]
  split
  · split <;> exact ⟨List.cons_ne_nil _ _, rfl⟩
  · exact ⟨List.cons_ne_nil _ _, rfl⟩

theorem stringLexeme_cuts : (stringLexeme c cs).Cuts (c :: cs) :=
  ⟨List.cons_ne_nil _ _, congrArg (c :: ·) (stringBody_append c cs)⟩

theorem blockComment_cuts :
    Lexeme.Cuts ⟨.comment, '/' :: '*' :: (blockComment cs).1, (blockComment cs).2⟩ ('/' :: '*' :: cs) :=
  ⟨List.cons_ne_nil _ _, congrArg ('/' :: '*' :: ·) (blockComment_append cs)⟩

variable {c}

theorem lineComment_cuts (ink : c ≠ '\n') : (lineComment (c :: cs)).Cuts (c :: cs) :=
  ⟨by simp [lineComment, ink], List.takeWhile_append_dropWhile⟩

theorem wordLexeme_cuts (start : isNameStart c = true) : (wordLexeme (c :: cs)).Cuts (c :: cs) :=
  ⟨by simp [wordLexeme, isNamePart, start], List.takeWhile_append_dropWhile⟩

/-- A number is its digits and the point. -/
theorem numberLexeme_cuts (digit : Number.isDigit c = true) : (numberLexeme (c :: cs)).Cuts (c :: cs) := by
  have whole := List.takeWhile_append_dropWhile (p := Number.isDigit) (l := c :: cs)
  rw [numberLexeme.eq_def]
  simp only [Number.Numeral.readDigits]
  split
  case h_1 d rest point =>
    split
    · have fraction := List.takeWhile_append_dropWhile (p := Number.isDigit) (l := d :: rest)
      refine ⟨by simp [Number.Numeral.text, digit], ?_⟩
      simp only [Number.Numeral.text, List.append_nil, List.append_assoc, List.cons_append]
      rw [fraction, ← point, whole]
    · exact ⟨by simp [Number.Numeral.text, digit], by simp [Number.Numeral.text]⟩
  case h_2 => exact ⟨by simp [Number.Numeral.text, digit], by simp [Number.Numeral.text]⟩

/-- Reading a lexeme takes a character at least and loses nothing. -/
theorem lexeme_cuts (c : Char) (cs : List Char) : (lexeme c cs).Cuts (c :: cs) := by
  rw [lexeme.eq_def]
  split
  case h_1 | h_2 | h_3 | h_4 | h_5 | h_6 | h_7 | h_8 | h_9 | h_10 | h_11 => exact punct_cuts ..
  case h_12 | h_13 | h_14 | h_15 | h_16 | h_17 => exact withEq_cuts ..
  case h_18 | h_19 | h_20 => exact pairOnly_cuts ..
  case h_21 =>
    split
    · exact lineComment_cuts _ (by decide)
    · exact withEq_cuts ..
  case h_22 =>
    split
    · exact lineComment_cuts _ (by decide)
    · exact blockComment_cuts _
    · exact withEq_cuts ..
  case h_23 =>
    split
    · exact stringLexeme_cuts c cs
    · split
      case isTrue digit => exact numberLexeme_cuts cs digit
      case isFalse =>
        split
        case isTrue start => exact wordLexeme_cuts cs start
        case isFalse => exact ⟨List.cons_ne_nil _ _, rfl⟩

end Cuts

/-- What follows a lexeme is shorter than what it was read from. -/
theorem lexeme_rest_lt (c : Char) (cs : List Char) : (lexeme c cs).rest.length < (c :: cs).length := by
  have cuts := lexeme_cuts c cs
  have whole := congrArg List.length cuts.whole
  have nonempty := List.length_pos_iff.mpr cuts.nonempty
  rw [List.length_append] at whole
  omega

/-- Tokens, faults and the place of the end. -/
structure Scan where
  tokens : List Token
  faults : List Diagnostic
  stop : Pos
deriving DecidableEq, Repr, Inhabited

/-- Reads all lexemes of a text that starts at `pos`. -/
def scan (pos : Pos) (cs : List Char) : Scan :=
  match cs with
  | [] => ⟨[], [], pos⟩
  | c :: rest =>
    if isSpace c then scan (pos.after c) rest
    else
      let lex := lexeme c rest
      let next := scan (pos.afterAll lex.text) lex.rest
      match lex.outcome with
      | .token kind => { next with tokens := ⟨kind, pos⟩ :: next.tokens }
      | .comment => next
      | .fault fault before => { next with faults := ⟨fault, pos.afterAll before⟩ :: next.faults }
termination_by cs.length
decreasing_by
  · simp
  · exact lexeme_rest_lt c rest

/-- The tokens of a text, or all its faults. -/
def tokenize (source : String) : Except (List Diagnostic) TokenStream :=
  let result := scan .start source.toList
  if result.faults.isEmpty then .ok ⟨result.tokens, result.stop⟩ else .error result.faults

end Sketch.Lexer
