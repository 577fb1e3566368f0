import Sketch.Proofs.Text.Bytes
import Sketch.Proofs.Token.Pieces

/-!
Faults of a text and the characters that they point at. A fault of the lexer names the character at which it stands,
but of one whose escape means nothing it names the first byte.
-/

namespace Sketch

namespace Pos

/-- The character at a place of a text. -/
def PointsAt (pos : Pos) (text : List Char) (c : Char) : Prop :=
  ∃ before after, text = before ++ c :: after ∧ pos = .behind before

/-- Behind more text is another place. -/
theorem behind_append_ne {before text : List Char} (more : text ≠ []) : behind (before ++ text) ≠ behind before := by
  intro same
  have lines : 1 + (before ++ text).count '\n' = 1 + before.count '\n' := congrArg line same
  have columns : 1 + ((before ++ text).reverse.takeWhile (· ≠ '\n')).length =
      1 + (before.reverse.takeWhile (· ≠ '\n')).length := congrArg column same
  rw [List.count_append] at lines
  have oneLine : '\n' ∉ text := List.count_eq_zero.mp (by omega)
  rw [List.reverse_append, List.takeWhile_append_of_pos, List.length_append, List.length_reverse] at columns
  · exact more (List.length_eq_zero_iff.mp (by omega))
  · intro c mem
    rw [decide_eq_true_eq]
    rintro rfl
    exact oneLine (List.mem_reverse.mp mem)

end Pos

namespace Lexer

/-! ### First bytes -/

theorem toNat_leadByteChar (c : Char) : c.toNat < 0x110000 ∧ (leadByteChar c).toNat =
    if c.toNat < 0x80 then c.toNat else if c.toNat < 0x800 then 0xc0 + c.toNat / 0x40
    else if c.toNat < 0x10000 then 0xe0 + c.toNat / 0x1000 else 0xf0 + c.toNat / 0x40000 := by
  have bound : c.toNat < 0x110000 := by
    rcases c.valid with low | high
    · exact Nat.lt_trans low (by decide)
    · exact high.2
  have valid {n : Nat} (small : n < 0xd800) : (Char.ofNat n).toNat = n := by
    rw [Char.ofNat, dif_pos (.inl small)]
    rfl
  refine ⟨bound, valid ?_⟩
  split <;> (try split) <;> (try split) <;> omega

/-- The character that a fault names has the number of a first byte. -/
theorem head?_charBytes (c : Char) : (Text.charBytes c).head? = some (leadByteChar c) := by
  obtain ⟨bound, lead⟩ := toNat_leadByteChar c
  have byte {n : Nat} (small : n < 256) (same : n = (leadByteChar c).toNat) :
      some (Char.ofUInt8 (UInt8.ofNat n)) = some (leadByteChar c) := by
    refine congrArg some (Char.toNat_inj.mp ?_)
    rw [← same]
    exact Nat.mod_eq_of_lt small
  rw [Text.charBytes, String.utf8EncodeChar, List.head?_map, show c.val.toNat = c.toNat from rfl]
  split
  · rw [if_pos (by omega)] at lead
    exact byte (by omega) lead.symm
  rw [if_neg (by omega)] at lead
  split
  · rw [if_pos (by omega)] at lead
    exact byte (by omega) (by omega)
  rw [if_neg (by omega)] at lead
  split
  · rw [if_pos (by omega)] at lead
    exact byte (by omega) (by omega)
  · rw [if_neg (by omega)] at lead
    exact byte (by omega) (by omega)

/-- It is that one in ASCII, and in one case more. -/
theorem leadByteChar_eq_iff (c : Char) : leadByteChar c = c ↔ c.toNat < 128 ∨ c = Char.ofNat 0xc3 := by
  rw [← Char.toNat_inj, ← Char.toNat_inj, (toNat_leadByteChar c).2]
  change _ ↔ _ ∨ c.toNat = 0xc3
  split
  · omega
  split
  · omega
  split <;> omega

/-! ### What faults point at -/

/-- How a fault names the character that it points at. -/
structure Names (c : Char) (fault : Fault) : Prop where
  unexpected : fault.code = .L001 → fault = .unexpectedChar c ∨
    ∃ second, (c, second) ∈ pairs ∧ fault = .halfOperator (String.ofList [c, second]) (String.ofList [c])
  escape : fault.code = .L003 → fault = .unknownEscape (leadByteChar c)

theorem Wrong.names {fault : Fault} {inner text rest : List Char} (wrong : Wrong fault inner text rest) :
    ∃ c more, text = inner ++ c :: more ∧ Names c fault := by
  cases wrong with
  | stray => exact ⟨_, [], rfl, fun _ => .inl rfl, nofun⟩
  | half pair => exact ⟨_, [], rfl, fun _ => .inr ⟨_, pair, rfl⟩, nofun⟩
  | openString | openEscape => exact ⟨_, _, rfl, nofun, nofun⟩
  | @badEscape quote e body _ more => exact ⟨e, more ++ [quote], by simp, nofun, fun _ => rfl⟩

variable {before ahead : List Char} {tokens : List Token} {faults : List Diagnostic} {stop : Pos}

/-- Every fault points at a character of the text. -/
theorem Cut.names (cut : Cut before ahead tokens faults stop) : ∀ d ∈ faults, ∃ pre c post,
    ahead = pre ++ c :: post ∧ d.pos = .behind (before ++ pre) ∧ Names c d.fault := by
  have behind {before text rest : List Char} {faults : List Diagnostic}
      (each : ∀ d ∈ faults, ∃ pre c post, rest = pre ++ c :: post ∧ d.pos = .behind (before ++ text ++ pre) ∧
        Names c d.fault) :
      ∀ d ∈ faults, ∃ pre c post, text ++ rest = pre ++ c :: post ∧ d.pos = .behind (before ++ pre) ∧
        Names c d.fault := by
    intro d mem
    obtain ⟨pre, c, post, rfl, place, named⟩ := each d mem
    exact ⟨text ++ pre, c, post, (List.append_assoc ..).symm, by rw [place, List.append_assoc], named⟩
  induction cut with
  | stop => exact List.forall_mem_nil _
  | trivia _ _ ih | token _ _ _ _ ih => exact behind ih
  | @fault before text inner rest fault tokens faults stop wrong _ ih =>
    obtain ⟨c, more, rfl, named⟩ := wrong.names
    refine List.forall_mem_cons.mpr ⟨⟨inner, c, more ++ rest, by simp, rfl, named⟩, behind ih⟩

/-! ### Stray characters -/

/-- A character that is no blank and begins no token. -/
def IsStray (c : Char) : Prop := isSpace c = false ∧ ∀ kind text, ¬Spells kind (c :: text)

theorem not_isStray_of_isNamePart {c : Char} (part : isNamePart c = true) : ¬IsStray c := by
  intro stray
  rw [isNamePart, Bool.or_eq_true] at part
  rcases part with start | digit
  · exact stray.2 _ [] (spells_ofWord start fun _ absurd => (List.not_mem_nil absurd).elim)
  · exact stray.2 _ [] (.whole (List.cons_ne_nil _ _) (by simpa using digit))

theorem not_isStray_of_fixed {c : Char} (kind : TokenKind) (text : List Char)
    (listed : String.ofList (c :: text) ∈ fixedSpellings kind) : ¬IsStray c :=
  fun stray => stray.2 kind text (.fixed listed)

theorem not_isStray_of_pair {c : Char} (second : Char) (pair : (c, second) ∈ pairs) : ¬IsStray c := by
  simp only [pairs, List.mem_cons, Prod.mk.injEq, List.not_mem_nil, or_false] at pair
  rcases pair with ⟨rfl, -⟩ | ⟨rfl, -⟩ | ⟨rfl, -⟩
  · exact not_isStray_of_fixed (.punct .bangEq) ['='] (by decide)
  · exact not_isStray_of_fixed (.keyword .andKw) ['&'] (by decide)
  · exact not_isStray_of_fixed (.keyword .orKw) ['|'] (by decide)

/-- No token but a string has a stray character in it. -/
theorem Spells.not_isStray {kind : TokenKind} {text : List Char} (spelled : Spells kind text) :
    (∃ s, kind = .string s) ∨ ∀ c ∈ text, ¬IsStray c := by
  have digit {c : Char} (isDigit : Number.isDigit c = true) : ¬IsStray c :=
    not_isStray_of_isNamePart (by simp [isNamePart, isDigit])
  cases spelled with
  | string => exact .inl ⟨_, rfl⟩
  | name start parts =>
    refine .inr (List.forall_mem_cons.mpr ⟨not_isStray_of_isNamePart (by simp [isNamePart, start]), ?_⟩)
    exact fun c mem => not_isStray_of_isNamePart (parts c mem)
  | whole begun digits => exact .inr fun c mem => digit (digits c mem)
  | fraction begun digits goes decimals =>
    refine .inr (List.forall_mem_append.mpr ⟨fun c mem => digit (digits c mem), ?_⟩)
    refine List.forall_mem_cons.mpr ⟨not_isStray_of_fixed (.punct .dot) [] (by decide), ?_⟩
    exact fun c mem => digit (decimals c mem)
  | fixed listed =>
    cases text with
    | nil => exact .inr (List.forall_mem_nil _)
    | cons c text =>
      refine .inr (List.forall_mem_cons.mpr ⟨not_isStray_of_fixed kind text listed, fun d mem => ?_⟩)
      have known : (fixedSpellings kind).all (·.toList.tail.all fun d =>
          isNamePart d || ['=', '&', '|'].contains d) = true := by
        cases kind with
        | keyword k => cases k <;> decide
        | punct p => cases p <;> decide
        | bool b => cases b <;> decide
        | number | string | ident => rfl
      have behind := List.all_eq_true.mp known _ listed
      rw [String.toList_ofList, List.tail_cons, List.all_eq_true] at behind
      rcases Bool.or_eq_true_iff.mp (behind d mem) with part | sign
      · exact not_isStray_of_isNamePart part
      · simp only [List.contains_iff_mem, List.mem_cons, List.not_mem_nil, or_false] at sign
        rcases sign with rfl | rfl | rfl
        · exact not_isStray_of_fixed (.punct .eq) [] (by decide)
        · exact not_isStray_of_pair '&' (by decide)
        · exact not_isStray_of_pair '|' (by decide)

/-- A place between two pieces of a text. -/
inductive Between (source : List Char) : List Char → List Char → Prop
  | start : Between source [] source
  | trivia {before text rest : List Char} (between : Between source before (text ++ rest))
      (skipped : Trivia text rest) : Between source (before ++ text) rest
  | token {before text rest : List Char} {kind : TokenKind} (between : Between source before (text ++ rest))
      (spelled : Spells kind text)
      (longest : ∀ other word, Spells other word → word <+: text ++ rest → word.length ≤ text.length)
      (ink : ∀ skipped tail, Trivia skipped tail → skipped ++ tail ≠ text ++ rest) :
      Between source (before ++ text) rest
  | fault {before text inner rest : List Char} {fault : Fault} (between : Between source before (text ++ rest))
      (wrong : Wrong fault inner text rest) : Between source (before ++ text) rest

/-- A piece of a text that is a comment, or a string, closed or not. -/
def Shelters (text rest : List Char) : Prop :=
  Trivia text rest ∨ (∃ s, Spells (.string s) text) ∨ Wrong .unterminatedString [] text rest ∨
    ∃ c inner, Wrong (.unknownEscape c) inner text rest

/-- The place behind `before` is inside of a string or a comment. -/
def Sheltered (source before : List Char) : Prop := ∃ start text rest, Between source start (text ++ rest) ∧
  Shelters text rest ∧ start <+: before ∧ before.length < (start ++ text).length

variable {source text rest pre post : List Char} {c : Char}

theorem Between.append (between : Between source before ahead) : before ++ ahead = source := by
  induction between with
  | start => rfl
  | trivia _ _ ih | token _ _ _ _ ih | fault _ _ ih => rw [List.append_assoc, ih]

/-- Trivia and strings begin with one of their signs. -/
theorem Shelters.head (kept : Shelters text rest) :
    (∃ c, text = [c] ∧ isSpace c = true) ∨ ∃ c ∈ text, c ∈ ['/', '-', '"', '\''] := by
  have quoted {quote : Char} (body : List Char) (isQuote : quote = '"' ∨ quote = '\'') :
      ∃ c ∈ quote :: body, c ∈ ['/', '-', '"', '\''] := by
    refine ⟨quote, List.mem_cons_self, ?_⟩
    rcases isQuote with rfl | rfl <;> decide
  rcases kept with skipped | ⟨s, spelled⟩ | wrong | ⟨c, inner, wrong⟩
  · cases skipped with
    | blank space => exact .inl ⟨_, rfl, space⟩
    | @line mark body _ isMark =>
      refine .inr ⟨mark, List.mem_cons_self, ?_⟩
      rcases isMark with rfl | rfl <;> decide
    | block | openBlock => exact .inr ⟨'/', List.mem_cons_self, by decide⟩
  · cases spelled with
    | string isQuote => exact .inr (quoted _ isQuote)
    | fixed listed => exact absurd listed List.not_mem_nil
  · cases wrong with
    | openString isQuote | openEscape isQuote => exact .inr (quoted _ isQuote)
  · cases wrong with
    | badEscape isQuote => exact .inr (quoted _ isQuote)

/-- Nothing but a blank is sheltered in a text without quotes and comments. -/
theorem not_sheltered (plain : ∀ c ∈ source, c ∉ ['/', '-', '"', '\'']) (here : source = pre ++ c :: post)
    (ink : isSpace c = false) : ¬Sheltered source pre := by
  rintro ⟨start, text, rest, between, kept, ⟨more, rfl⟩, within⟩
  rcases kept.head with ⟨d, rfl, space⟩ | ⟨d, mem, mark⟩
  · obtain rfl : more = [] := by
      rw [List.length_append, List.length_append] at within
      exact List.length_eq_zero_iff.mp (by simpa using within)
    rw [← between.append, List.append_nil, List.append_cancel_left_eq] at here
    obtain ⟨rfl, -⟩ := List.cons.inj here
    rw [space] at ink
    exact absurd ink (by decide)
  · refine plain d ?_ mark
    rw [← between.append]
    exact List.mem_append_right _ (List.mem_append_left _ mem)

theorem Between.sheltered (between : Between source before (text ++ rest)) (kept : Shelters text rest)
    {more : List Char} (within : text = pre ++ c :: more) : Sheltered source (before ++ pre) := by
  refine ⟨before, text, rest, between, kept, List.prefix_append .., ?_⟩
  rw [within, List.length_append, List.length_append, List.length_append, List.length_cons]
  omega

/-- A character of a text is one of its first piece, or it comes later. -/
theorem within_or_later (here : text ++ rest = pre ++ c :: post) :
    (∃ more, text = pre ++ c :: more) ∨ ∃ more, pre = text ++ more ∧ rest = more ++ c :: post := by
  rcases List.append_eq_append_iff.mp here with later | ⟨more, rfl, tail⟩
  · exact .inr later
  · cases more with
    | nil => exact .inr ⟨[], by simp, tail.symm⟩
    | cons d more =>
      obtain ⟨rfl, -⟩ := List.cons.inj tail
      exact .inl ⟨more, rfl⟩

/-- No fault of the rest of a text points back. -/
theorem Cut.filter_eq_nil (cut : Cut (before ++ text) ahead tokens faults stop) (more : text ≠ []) :
    faults.filter (·.pos = .behind before) = [] := by
  refine List.filter_eq_nil_iff.mpr fun d mem => ?_
  obtain ⟨pre, _, _, -, place, -⟩ := cut.names d mem
  rw [place, List.append_assoc, decide_eq_true_eq]
  exact Pos.behind_append_ne (List.append_ne_nil_of_left_ne_nil more pre)

/-- A stray character that is not sheltered is one fault. -/
theorem Cut.strays (cut : Cut before ahead tokens faults stop) (between : Between source before ahead)
    (here : ahead = pre ++ c :: post) (stray : IsStray c) (bare : ¬Sheltered source (before ++ pre)) :
    faults.filter (·.pos = .behind (before ++ pre)) = [⟨.unexpectedChar c, .behind (before ++ pre)⟩] := by
  induction cut generalizing pre with
  | stop => exact absurd here (by simp)
  | @trivia before text rest tokens faults stop skipped _ ih =>
    rcases within_or_later here with ⟨more, within⟩ | ⟨more, rfl, tail⟩
    · exact absurd (between.sheltered (.inl skipped) within) bare
    · rw [← List.append_assoc] at bare ⊢
      exact ih (between.trivia skipped) tail bare
  | @token before text rest kind tokens faults stop spelled longest ink _ ih =>
    rcases within_or_later here with ⟨more, within⟩ | ⟨more, rfl, tail⟩
    · rcases spelled.not_isStray with ⟨s, rfl⟩ | none
      · exact absurd (between.sheltered (.inr (.inl ⟨s, spelled⟩)) within) bare
      · exact absurd stray (none c (by simp [within]))
    · rw [← List.append_assoc] at bare ⊢
      exact ih (between.token spelled longest ink) tail bare
  | @fault before text inner rest fault tokens faults stop wrong next ih =>
    rcases within_or_later here with ⟨more, within⟩ | ⟨more, rfl, tail⟩
    · have string (kept : Shelters text rest) : False := bare (between.sheltered kept within)
      have single {d : Char} (whole : text = [d]) : pre = [] ∧ c = d ∧ more = [] := by
        rw [within] at whole
        simpa [List.append_eq_cons_iff] using whole
      cases wrong with
      | stray =>
        obtain ⟨rfl, rfl, -⟩ := single rfl
        rw [List.append_nil, List.filter_cons_of_pos (by simp), next.filter_eq_nil (List.cons_ne_nil _ _)]
      | half pair =>
        obtain ⟨rfl, rfl, -⟩ := single rfl
        exact absurd stray (not_isStray_of_pair _ pair)
      | openString isQuote runs ends => exact (string (.inr (.inr (.inl (.openString isQuote runs ends))))).elim
      | openEscape isQuote runs => exact (string (.inr (.inr (.inl (.openEscape isQuote runs))))).elim
      | badEscape isQuote stands unknown runs =>
        exact (string (.inr (.inr (.inr ⟨_, _, .badEscape isQuote stands unknown runs⟩)))).elim
    · obtain ⟨d, others, whole, -⟩ := wrong.names
      have earlier : ¬Pos.behind (before ++ inner) = .behind (before ++ (text ++ more)) := by
        rw [whole, List.append_assoc, ← List.append_assoc before]
        exact (Pos.behind_append_ne (List.cons_ne_nil _ _)).symm
      rw [List.filter_cons_of_neg (by simpa using earlier), ← List.append_assoc]
      rw [← List.append_assoc] at bare
      exact ih (between.fault wrong) tail bare

/-- Every fault of a text points at a character. One that is not expected is named as it is. Of a character whose escape
    means nothing it is the first byte that is named, which is that character in ASCII, and in one case more. A stray
    character outside of strings and comments is one fault. -/
theorem faults_name_characters (source : String) :
    (∀ faults, tokenize source = .error faults → ∀ d ∈ faults, ∃ c, d.pos.PointsAt source.toList c ∧
      (d.code = .L001 → d.message = s!"unexpected character `{c}`" ∨ ∃ second, (c, second) ∈ pairs ∧
        d.fault = .halfOperator (String.ofList [c, second]) (String.ofList [c])) ∧
      (d.code = .L003 → ∃ named, d.message = s!"unknown escape sequence `\\{named}`" ∧
        (Text.charBytes c).head? = some named ∧ (named = c ↔ c.toNat < 128 ∨ c = Char.ofNat 0xc3))) ∧
    ∀ before c after, source.toList = before ++ c :: after → IsStray c → ¬Sheltered source.toList before →
      ∃ faults, tokenize source = .error faults ∧
        faults.filter (·.pos = .behind before) = [⟨.unexpectedChar c, .behind before⟩] := by
  have cut : Cut [] source.toList _ (scan .start source.toList).faults _ := cut_scan [] source.toList
  constructor
  · intro faults refused d mem
    rw [tokenize] at refused
    split at refused
    · cases refused
    · cases refused
      obtain ⟨pre, c, post, here, place, named⟩ := cut.names d mem
      refine ⟨c, ⟨pre, post, here, place⟩, fun code => ?_, fun code => ?_⟩
      · exact (named.unexpected code).imp_left (congrArg Fault.message)
      · have message := congrArg Fault.message (named.escape code)
        exact ⟨leadByteChar c, message, head?_charBytes c, leadByteChar_eq_iff c⟩
  · intro before c after here stray bare
    have one := cut.strays .start here stray bare
    refine ⟨_, ?_, one⟩
    rw [tokenize, if_neg]
    intro clean
    rw [List.isEmpty_iff.mp clean] at one
    cases one

/-- Characters of several bytes that begin no token, and half of an operator. -/
def foreign : String := "😀 ~ x 漢\n"

/-- Each of its faults points at a character, and the last character is one fault. -/
theorem foreign_faults_name : tokenize foreign = .error [⟨.unexpectedChar '😀', ⟨1, 1⟩⟩,
      ⟨.halfOperator "~=" "~", ⟨1, 3⟩⟩, ⟨.unexpectedChar '漢', ⟨1, 7⟩⟩] ∧
    (∃ c, Pos.PointsAt ⟨1, 7⟩ foreign.toList c ∧ "unexpected character `漢`" = s!"unexpected character `{c}`") ∧
    IsStray '漢' ∧ ¬Sheltered foreign.toList "😀 ~ x ".toList ∧ ∃ faults, tokenize foreign = .error faults ∧
      faults.filter (·.pos = ⟨1, 7⟩) = [⟨.unexpectedChar '漢', ⟨1, 7⟩⟩] := by
  have refused : tokenize foreign = .error [⟨.unexpectedChar '😀', ⟨1, 1⟩⟩,
      ⟨.halfOperator "~=" "~", ⟨1, 3⟩⟩, ⟨.unexpectedChar '漢', ⟨1, 7⟩⟩] := by decide +kernel
  have wrong : Wrong (.unexpectedChar '漢') [] ['漢'] [] := lexeme_piece (c := '漢') (by decide +kernel) []
  obtain ⟨ink, unknown⟩ := wrong
  have plain : foreign.toList.all (· ∉ ['/', '-', '"', '\'']) = true := by decide +kernel
  have bare : ¬Sheltered foreign.toList "😀 ~ x ".toList :=
    not_sheltered (fun c met => of_decide_eq_true (List.all_eq_true.mp plain c met)) rfl ink
  obtain ⟨named, one⟩ := faults_name_characters foreign
  obtain ⟨c, there, unexpected, -⟩ := named _ refused ⟨.unexpectedChar '漢', ⟨1, 7⟩⟩ (by decide)
  refine ⟨refused, ⟨c, there, ?_⟩, ⟨ink, unknown⟩, bare, one _ '漢' _ rfl ⟨ink, unknown⟩ bare⟩
  exact (unexpected rfl).resolve_right fun ⟨_, _, half⟩ => nomatch half

/-- A character of two bytes is not the one that is named when its escape means nothing. -/
theorem escape_names_first_byte : tokenize "\"\\é\"" = .error [⟨.unknownEscape 'Ã', ⟨1, 3⟩⟩] ∧
    Pos.PointsAt ⟨1, 3⟩ "\"\\é\"".toList 'é' := by
  exact ⟨by decide +kernel, ['"', '\\'], ['"'], by decide, by decide⟩

end Lexer

end Sketch
