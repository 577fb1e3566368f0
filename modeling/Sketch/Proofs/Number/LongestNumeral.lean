import Sketch.Value.Conversion

/-!
Numbers at the start of a text. No numeral at the same place is longer than the one that is read, and just the
characters that were read are a number.
-/

namespace Sketch

namespace Number.Numeral

/-- The mark, the sign and the digits of an exponent. -/
abbrev Exponent := Char × Option Char × List Char

variable {n : Numeral} {cs ds rest tail : List Char} {mark : Char} {sign : Option Char} {e : Option Exponent}

/-- An exponent as it may be written: a mark, maybe a sign, and digits. -/
def FitsExponent : Option Exponent → Prop
  | none => True
  | some (mark, sign, ds) =>
    (mark = 'e' ∨ mark = 'E') ∧ (∀ c ∈ sign, c = '+' ∨ c = '-') ∧ ds ≠ [] ∧ ∀ c ∈ ds, isDigit c = true

/-- A numeral as it may be written: digits with or without a point, and maybe an exponent. -/
structure Fits (n : Numeral) : Prop where
  whole : ∀ c ∈ n.whole, isDigit c = true
  fraction : ∀ c ∈ n.fraction.getD [], isDigit c = true
  begun : n.whole = [] → n.fraction.getD [] ≠ []
  exponent : FitsExponent n.exponent

/-- No numeral at the start of `cs` is longer than `n`. -/
def IsLongest (n : Numeral) (cs : List Char) : Prop :=
  n.Fits ∧ n.text <+: cs ∧ ∀ m : Numeral, m.Fits → m.text <+: cs → m.text.length ≤ n.text.length

def exponentText (e : Option Exponent) : List Char := text ⟨[], none, e⟩

theorem text_whole : text ⟨ds, none, e⟩ = ds ++ exponentText e := by
  simp [exponentText, text]

theorem text_point {fs : List Char} : text ⟨ds, some fs, e⟩ = ds ++ '.' :: (fs ++ exponentText e) := by
  simp [exponentText, text]

theorem exponentText_append : exponentText (some (mark, sign, ds)) ++ tail = mark :: (sign.toList ++ (ds ++ tail)) := by
  simp [exponentText, text]

/-! ### Digits and exponents -/

theorem span_of_stop {c : Char} (rest : List Char) (digits : ∀ d ∈ ds, isDigit d = true) (stop : isDigit c = false) :
    (ds ++ c :: rest).takeWhile isDigit = ds ∧ (ds ++ c :: rest).dropWhile isDigit = c :: rest := by
  rw [List.takeWhile_append_of_pos digits, List.dropWhile_append_of_pos digits]
  simp [stop]

theorem isDigit_of_taken (cs : List Char) : ∀ c ∈ cs.takeWhile isDigit, isDigit c = true :=
  List.all_eq_true.mp List.all_takeWhile

/-- An exponent is read as far as its digits go. -/
theorem readExponent_of_digits (fits : FitsExponent (some (mark, sign, ds))) :
    readExponent (exponentText (some (mark, sign, ds)) ++ tail) =
      (some (mark, sign, ds ++ tail.takeWhile isDigit), tail.dropWhile isDigit) := by
  obtain ⟨isMark, isSign, goes, digits⟩ := fits
  have taken : ds ++ tail.takeWhile isDigit ≠ [] := fun empty => goes (List.append_eq_nil_iff.mp empty).1
  rw [exponentText_append]
  simp only [readExponent, if_pos isMark]
  cases sign with
  | some c =>
    simp only [Option.toList_some, List.singleton_append, if_pos (isSign c rfl), readDigits,
      List.takeWhile_append_of_pos digits, List.dropWhile_append_of_pos digits, if_neg taken]
  | none =>
    obtain ⟨d, more, rfl⟩ := List.exists_cons_of_ne_nil goes
    have unsigned : ¬(d = '+' ∨ d = '-') := by
      have digit := digits d List.mem_cons_self
      rintro (rfl | rfl) <;> exact absurd digit (by decide)
    have split : (none : Option Char).toList ++ (d :: more ++ tail) = d :: (more ++ tail) := rfl
    rw [split]
    simp only [if_neg unsigned, readDigits, ← List.cons_append, List.takeWhile_append_of_pos digits,
      List.dropWhile_append_of_pos digits, if_neg taken]

/-- Reading an exponent loses nothing, and what is read is one. -/
theorem readExponent_fits (cs : List Char) :
    FitsExponent (readExponent cs).1 ∧ exponentText (readExponent cs).1 ++ (readExponent cs).2 = cs := by
  cases cs with
  | nil => exact ⟨trivial, rfl⟩
  | cons mark rest =>
    by_cases isMark : mark = 'e' ∨ mark = 'E'
    · simp only [readExponent, if_pos isMark, readDigits]
      have unsigned (sign : Option Char) (isSign : ∀ c ∈ sign, c = '+' ∨ c = '-') (behind : List Char)
          (whole : rest = sign.toList ++ behind) :
          let r := if behind.takeWhile isDigit = [] then (none, mark :: rest)
            else (some (mark, sign, behind.takeWhile isDigit), behind.dropWhile isDigit)
          FitsExponent r.1 ∧ exponentText r.1 ++ r.2 = mark :: rest := by
        by_cases goes : behind.takeWhile isDigit = []
        · rw [if_pos goes]
          exact ⟨trivial, rfl⟩
        · rw [if_neg goes]
          refine ⟨⟨isMark, isSign, goes, isDigit_of_taken behind⟩, ?_⟩
          simp [exponentText, text, whole]
      cases rest with
      | nil => exact unsigned none (by simp) [] rfl
      | cons c more =>
        by_cases isSign : c = '+' ∨ c = '-'
        · simpa only [if_pos isSign] using unsigned (some c) (by simpa using isSign) more rfl
        · simpa only [if_neg isSign] using unsigned none (by simp) (c :: more) rfl
    · simp only [readExponent, if_neg isMark]
      exact ⟨trivial, rfl⟩

/-! ### Numerals -/

theorem read?_of_point (point : cs.dropWhile isDigit = '.' :: rest)
    (goes : ¬(cs.takeWhile isDigit = [] ∧ rest.takeWhile isDigit = [])) :
    read? cs = some (⟨cs.takeWhile isDigit, some (rest.takeWhile isDigit), (readExponent (rest.dropWhile isDigit)).1⟩,
      (readExponent (rest.dropWhile isDigit)).2) := by
  simp only [read?, readDigits, point, Option.getD_some, if_neg goes]

theorem read?_of_whole (noPoint : ∀ rest, cs.dropWhile isDigit ≠ '.' :: rest) (goes : cs.takeWhile isDigit ≠ []) :
    read? cs = some (⟨cs.takeWhile isDigit, none, (readExponent (cs.dropWhile isDigit)).1⟩,
      (readExponent (cs.dropWhile isDigit)).2) := by
  simp [read?, readDigits, goes]

/-- Reading a numeral loses nothing, and what is read is one. -/
theorem read?_fits (read : read? cs = some (n, rest)) : n.Fits ∧ n.text ++ rest = cs := by
  have whole := List.takeWhile_append_dropWhile (p := isDigit) (l := cs)
  by_cases point : ∃ behind, cs.dropWhile isDigit = '.' :: behind
  · obtain ⟨behind, point⟩ := point
    by_cases goes : cs.takeWhile isDigit = [] ∧ behind.takeWhile isDigit = []
    · simp only [read?, readDigits, point, Option.getD_some, if_pos goes] at read
      cases read
    · rw [read?_of_point point goes] at read
      cases read
      obtain ⟨fits, same⟩ := readExponent_fits (behind.dropWhile isDigit)
      refine ⟨⟨isDigit_of_taken cs, isDigit_of_taken behind, fun empty empty' => goes ⟨empty, empty'⟩, fits⟩, ?_⟩
      rw [text_point, List.append_assoc, List.cons_append, List.append_assoc, same,
        List.takeWhile_append_dropWhile, ← point, whole]
  · by_cases goes : cs.takeWhile isDigit = []
    · simp [read?, readDigits, not_exists.mp point, goes] at read
    · rw [read?_of_whole (fun behind point' => point ⟨behind, point'⟩) goes] at read
      cases read
      obtain ⟨fits, same⟩ := readExponent_fits (cs.dropWhile isDigit)
      refine ⟨⟨isDigit_of_taken cs, List.forall_mem_nil _, fun empty => absurd empty goes, fits⟩, ?_⟩
      rw [text_whole, List.append_assoc, same, whole]

/-- Behind an exponent, or where there is none. -/
theorem behind_exponent (fits : FitsExponent e) (tail : List Char) : let ahead := exponentText e ++ tail
    (exponentText e).length ≤
        (ahead.takeWhile isDigit).length + (exponentText (readExponent (ahead.dropWhile isDigit)).1).length ∧
      (tail = [] → ahead.takeWhile isDigit = [] ∧ readExponent (ahead.dropWhile isDigit) = (e, [])) ∧
      ∀ behind, ahead.dropWhile isDigit = '.' :: behind → exponentText e = [] ∧ tail ≠ [] := by
  rcases e with _ | ⟨mark, sign, ds⟩
  · refine ⟨Nat.zero_le _, ?_, fun behind point => ⟨rfl, ?_⟩⟩
    · rintro rfl
      exact ⟨rfl, rfl⟩
    · rintro rfl
      cases point
  · have stop : isDigit mark = false ∧ mark ≠ '.' := by
      rcases fits.1 with rfl | rfl <;> decide
    have taken : (exponentText (some (mark, sign, ds)) ++ tail).takeWhile isDigit = [] := by
      rw [exponentText_append, List.takeWhile_cons_of_neg (by simp [stop.1])]
    have left : (exponentText (some (mark, sign, ds)) ++ tail).dropWhile isDigit =
        exponentText (some (mark, sign, ds)) ++ tail := by
      rw [exponentText_append, List.dropWhile_cons_of_neg (by simp [stop.1])]
    refine ⟨?_, ?_, fun behind point => ?_⟩
    · rw [taken, left, readExponent_of_digits fits]
      simp [exponentText, Numeral.text]
    · rintro rfl
      rw [left, readExponent_of_digits fits]
      exact ⟨taken, by simp⟩
    · rw [left, exponentText_append] at point
      exact absurd (List.cons.inj point).1 stop.2

/-- Where a numeral stands, one is read that is no shorter. -/
theorem read?_of_text (fits : n.Fits) (tail : List Char) :
    ∃ m rest, read? (n.text ++ tail) = some (m, rest) ∧ n.text.length ≤ m.text.length ∧
      (tail = [] → m = n ∧ rest = []) := by
  obtain ⟨whole, fraction, e⟩ := n
  have digits : ∀ c ∈ whole, isDigit c = true := fits.whole
  obtain ⟨goes, ends, noPoint⟩ := behind_exponent (e := e) fits.exponent tail
  cases fraction with
  | none =>
    have begun : whole ++ (exponentText e ++ tail).takeWhile isDigit ≠ [] := fun empty =>
      fits.begun (List.append_eq_nil_iff.mp empty).1 rfl
    rw [text_whole, List.append_assoc]
    generalize exponentText e ++ tail = ahead at goes ends noPoint begun
    rw [← List.takeWhile_append_of_pos digits] at begun
    by_cases point : ∃ behind, ahead.dropWhile isDigit = '.' :: behind
    · obtain ⟨behind, point⟩ := point
      obtain ⟨empty, more⟩ := noPoint behind point
      rw [← List.dropWhile_append_of_pos digits] at point
      refine ⟨_, _, read?_of_point point fun empty => begun empty.1, ?_, fun ended => absurd ended more⟩
      rw [text_point, List.takeWhile_append_of_pos digits, empty]
      simp only [List.length_append, List.length_nil]
      omega
    · rw [not_exists, ← List.dropWhile_append_of_pos digits] at point
      refine ⟨_, _, read?_of_whole point begun, ?_, fun ended => ?_⟩
      · rw [text_whole, List.takeWhile_append_of_pos digits, List.dropWhile_append_of_pos digits]
        simp only [List.length_append]
        omega
      · obtain ⟨taken, read⟩ := ends ended
        rw [List.takeWhile_append_of_pos digits, List.dropWhile_append_of_pos digits, taken, read, List.append_nil]
        exact ⟨rfl, rfl⟩
  | some fs =>
    have decimals : ∀ c ∈ fs, isDigit c = true := fits.fraction
    have text : text ⟨whole, some fs, e⟩ ++ tail = whole ++ '.' :: (fs ++ (exponentText e ++ tail)) := by
      simp [text_point]
    rw [text, text_point]
    generalize exponentText e ++ tail = ahead at goes ends
    obtain ⟨taken, point⟩ := span_of_stop (fs ++ ahead) digits (by decide : isDigit '.' = false)
    have begun : ¬(whole = [] ∧ (fs ++ ahead).takeWhile isDigit = []) := by
      rintro ⟨empty, empty'⟩
      rw [List.takeWhile_append_of_pos decimals] at empty'
      exact fits.begun empty (List.append_eq_nil_iff.mp empty').1
    refine ⟨_, _, read?_of_point point (by rwa [taken]), ?_, fun ended => ?_⟩
    · rw [text_point, taken, List.takeWhile_append_of_pos decimals, List.dropWhile_append_of_pos decimals]
      simp only [List.length_append, List.length_cons]
      omega
    · obtain ⟨empty, read⟩ := ends ended
      rw [taken, List.takeWhile_append_of_pos decimals, List.dropWhile_append_of_pos decimals, empty, read,
        List.append_nil]
      exact ⟨rfl, rfl⟩

/-! ### Whole texts -/

theorem head_text (fits : n.Fits) : ∃ c rest, n.text = c :: rest ∧ (isDigit c = true ∨ c = '.') := by
  obtain ⟨whole, fraction, e⟩ := n
  rcases whole with _ | ⟨c, whole⟩
  · cases fraction with
    | none => exact absurd rfl (fits.begun rfl)
    | some fs => exact ⟨_, _, text_point, .inr rfl⟩
  · exact ⟨c, _, rfl, .inl (fits.whole c List.mem_cons_self)⟩

theorem mem_exponentText (fits : FitsExponent e) {c : Char} (met : c ∈ exponentText e) :
    isDigit c = true ∨ c ∈ ['.', 'e', 'E', '+', '-'] := by
  rcases e with _ | ⟨mark, sign, ds⟩
  · cases met
  obtain ⟨isMark, isSign, -, digits⟩ := fits
  have met : c = mark ∨ c ∈ sign ∨ c ∈ ds := by simpa [exponentText, text] using met
  rcases met with rfl | met | met
  · exact .inr (by rcases isMark with rfl | rfl <;> decide)
  · exact .inr (by rcases isSign c met with rfl | rfl <;> decide)
  · exact .inl (digits c met)

theorem mem_text (fits : n.Fits) {c : Char} (met : c ∈ n.text) : isDigit c = true ∨ c ∈ ['.', 'e', 'E', '+', '-'] := by
  obtain ⟨whole, fraction, e⟩ := n
  cases fraction with
  | none =>
    rw [text_whole, List.mem_append] at met
    exact met.elim (fun met => .inl (fits.whole c met)) (mem_exponentText fits.exponent)
  | some fs =>
    rw [text_point, List.mem_append, List.mem_cons, List.mem_append] at met
    rcases met with met | rfl | met | met
    · exact .inl (fits.whole c met)
    · exact .inr (by decide)
    · exact .inl (fits.fraction c met)
    · exact mem_exponentText fits.exponent met

theorem isAlpha_of_isDigit {c : Char} (digit : isDigit c = true) : c.isAlpha = false := by
  rw [isDigit, Bool.and_eq_true, decide_eq_true_eq, decide_eq_true_eq] at digit
  have range : 48 ≤ c.val.toNat ∧ c.val.toNat ≤ 57 := digit
  have small (k : UInt32) (above : 57 < k.toNat) : ¬k ≤ c.val := by
    rw [UInt32.le_iff_toNat_le]
    omega
  have upper : c.isUpper = false := decide_eq_false fun upper => small 65 (by decide) upper.1
  have lower : c.isLower = false := by
    change (decide (97 ≤ c.val) && _) = false
    rw [decide_eq_false (small 97 (by decide)), Bool.false_and]
  change (c.isUpper || c.isLower) = false
  rw [upper, lower, Bool.false_or]

/-- The characters of a numeral are a number as a whole, with its value. -/
theorem number?_text (fits : n.Fits) : Conversion.number? n.text = some n.value := by
  have letters {c : Char} (met : c ∈ n.text) : ¬(c.isAlpha && c ≠ 'e' && c ≠ 'E') = true := by
    rcases mem_text fits met with digit | mark
    · simp [isAlpha_of_isDigit digit]
    · simp only [List.mem_cons, List.not_mem_nil, or_false] at mark
      rcases mark with rfl | rfl | rfl | rfl | rfl <;> decide
  have noWord {word : List Char} (named : 'n' ∈ word) : n.text ≠ word := by
    rintro rfl
    exact letters named (by decide)
  have plain : ¬(n.text.any fun c => c.isAlpha && c ≠ 'e' && c ≠ 'E') = true := by
    rw [List.any_eq_true]
    rintro ⟨c, met, letter⟩
    exact letters met letter
  obtain ⟨c, rest, head, first⟩ := head_text fits
  obtain ⟨m, behind, read, -, whole⟩ := read?_of_text fits []
  obtain ⟨rfl, rfl⟩ := whole rfl
  rw [List.append_nil] at read
  have unsigned (sign : Char) (isSign : sign = '-' ∨ sign = '+') (more : List Char) : m.text ≠ sign :: more := by
    rintro same
    obtain rfl : c = sign := (List.cons.inj (head.symm.trans same)).1
    revert first
    rcases isSign with rfl | rfl <;> decide
  rw [Conversion.number?, if_neg (not_or.mpr ⟨noWord (by decide), noWord (by decide)⟩), if_neg (noWord (by decide)),
    if_neg plain, readSigned?.eq_def]
  split
  case h_1 same => exact absurd same (unsigned '-' (.inl rfl) _)
  case h_2 same => exact absurd same (unsigned '+' (.inr rfl) _)
  case h_3 => rw [read]

end Number.Numeral

namespace Conversion

open Number (Numeral)

/-- A text begins with blanks and maybe a sign, which is a factor. -/
inductive Opens : List Char → Float → List Char → Prop where
  | minus {rest : List Char} : Opens ('-' :: rest) (-1.0) rest
  | plus {rest : List Char} : Opens ('+' :: rest) 1.0 rest
  | none {rest : List Char} (ink : ∀ c, rest.head? = some c → Text.isBlank c = false ∧ c ≠ '-' ∧ c ≠ '+') :
      Opens rest 1.0 rest
  | blank {c : Char} {cs rest : List Char} {sign : Float} (blank : Text.isBlank c = true) (opens : Opens cs sign rest) :
      Opens (c :: cs) sign rest

theorem opens_splitSign (cs : List Char) :
    Opens cs (splitSign (Text.trimStart cs)).1 (splitSign (Text.trimStart cs)).2 := by
  induction cs with
  | nil => exact .none (by simp)
  | cons c cs ih =>
    by_cases blank : Text.isBlank c = true
    · rw [Text.trimStart, List.dropWhile_cons_of_pos blank]
      exact .blank blank ih
    · rw [Text.trimStart, List.dropWhile_cons_of_neg blank, splitSign.eq_def]
      split
      case h_1 same => exact same ▸ .minus
      case h_2 same => exact same ▸ .plus
      case h_3 minus plus =>
        refine .none fun d first => ?_
        obtain rfl : c = d := Option.some.inj first
        refine ⟨Bool.not_eq_true _ ▸ blank, ?_, ?_⟩
        · rintro rfl
          exact minus _ rfl
        · rintro rfl
          exact plus _ rfl

/-- The start of a text that is a number. Behind blanks and maybe a sign, the word `Infinity` is infinite. Otherwise
    the longest numeral there is what is looked at as a number, it is one, and its value with the sign is the answer.
    If there is no numeral, the answer is NaN. -/
theorem parseFloat_reads_longest (s : String) :
    ∃ sign rest, Opens s.toList sign rest ∧
      ("Infinity".toList <+: rest ∧ parseFloat s = sign * infinity ∨
        ¬"Infinity".toList <+: rest ∧
          ((∃ n : Numeral, n.IsLongest rest ∧ (Numeral.read? rest).map (·.1.text) = some n.text ∧
              number? n.text = some n.value ∧ parseFloat s = sign * n.value) ∨
            (∀ n : Numeral, n.Fits → ¬n.text <+: rest) ∧ parseFloat s = nan)) := by
  refine ⟨_, _, opens_splitSign s.toList, ?_⟩
  rw [parseFloat]
  generalize splitSign (Text.trimStart s.toList) = split
  obtain ⟨sign, rest⟩ := split
  by_cases word : "Infinity".toList <+: rest
  · exact .inl ⟨word, if_pos (List.isPrefixOf_iff_prefix.mpr word)⟩
  refine .inr ⟨word, ?_⟩
  simp only [if_neg (mt List.isPrefixOf_iff_prefix.mp word)]
  have longest {n : Numeral} (fits : n.Fits) (stands : n.text <+: rest) :
      ∃ m after, Numeral.read? rest = some (m, after) ∧ n.text.length ≤ m.text.length := by
    obtain ⟨tail, rfl⟩ := stands
    obtain ⟨m, after, read, longer, -⟩ := Numeral.read?_of_text fits tail
    exact ⟨m, after, read, longer⟩
  cases read : Numeral.read? rest with
  | none =>
    refine .inr ⟨fun n fits stands => ?_, rfl⟩
    obtain ⟨m, after, read', -⟩ := longest fits stands
    cases read.symm.trans read'
  | some found =>
    obtain ⟨n, after⟩ := found
    obtain ⟨fits, whole⟩ := Numeral.read?_fits read
    have number := Numeral.number?_text fits
    refine .inl ⟨n, ⟨fits, ⟨after, whole⟩, fun m fits' stands => ?_⟩, rfl, number, by simp only [number]⟩
    obtain ⟨n', after', read', longer⟩ := longest fits' stands
    cases read.symm.trans read'
    exact longer

end Conversion

end Sketch
