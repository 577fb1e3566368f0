import Sketch.Proofs.Layout.Format

/-!
How the formatter reads one line: it marks brackets and words and passes over all else. What it sees depends neither
on what leads the line nor on the blanks at its ends.
-/

namespace Sketch

namespace Layout

open Text (isBlank)
open Lexer (isNameStart isNamePart)

/-- The token that a mark is, if it can matter for the depth of a line. -/
def Mark.kind? : Mark → Option TokenKind
  | .opener '(' => some (.punct .lparen)
  | .opener '[' => some (.punct .lbracket)
  | .opener '\x7b' => some (.punct .lbrace)
  | .closer ')' => some (.punct .rparen)
  | .closer ']' => some (.punct .rbracket)
  | .closer '\x7d' => some (.punct .rbrace)
  | .word "function" => some (.keyword .functionKw)
  | .word "then" => some (.keyword .thenKw)
  | .word "do" => some (.keyword .doKw)
  | .word "end" => some (.keyword .endKw)
  | .word "else" => some (.keyword .elseKw)
  | .word "elseif" => some (.keyword .elseifKw)
  | _ => none

/-- The tokens that some marks are. -/
def kinds (ms : List Placed) : List TokenKind := ms.filterMap (·.mark.kind?)

/-- What is seen of a line: its tokens, and whether a comment is open behind it. -/
def seen (inComment : Bool) (line : List Char) : List TokenKind × Bool :=
  (kinds (marks inComment true line).1, (marks inComment true line).2)

/-- The characters by which the formatter knows comments, strings and brackets. -/
def signs : List Char := ['/', '-', '"', '\'', '\x7b', '[', '(', '\x7d', ']', ')']

/-- Characters that the formatter passes over one by one. -/
def isPlain (c : Char) : Bool := !signs.contains c && !isNameStart c

/-! ### Parts of a line -/

section Parts

variable {inComment leading : Bool} {cs rest : List Char} {c : Char}

theorem marks_open (never : afterComment cs = none) : marks true leading cs = ([], true) := by
  rw [marks.eq_def, if_pos rfl]
  split
  case h_1 => rfl
  case h_2 found =>
    rw [never] at found
    cases found

theorem marks_closed (closes : afterComment cs = some rest) : marks true leading cs = marks false leading rest := by
  rw [marks.eq_def, if_pos rfl]
  split
  case h_1 found =>
    rw [closes] at found
    cases found
  case h_2 found =>
    rw [closes] at found
    cases found
    rfl

theorem marks_nil : marks false leading [] = ([], false) := by
  rw [marks.eq_def]
  rfl

theorem marks_empty (inComment : Bool) : marks inComment leading [] = ([], inComment) := by
  cases inComment with
  | true => exact marks_open rfl
  | false => exact marks_nil

theorem marks_lineComment (isMark : c = '/' ∨ c = '-') : marks false leading (c :: c :: cs) = ([], false) := by
  rw [marks.eq_def]
  rcases isMark with rfl | rfl <;> simp

theorem marks_blockComment : marks false leading ('/' :: '*' :: cs) = marks true leading cs := by
  rw [marks.eq_def]
  simp

theorem marks_string (quote : c = '"' ∨ c = '\'') :
    marks false leading (c :: cs) = marks false false (afterString c cs) := by
  rw [marks.eq_def]
  rcases quote with rfl | rfl <;> simp

theorem marks_opener (opens : c = '\x7b' ∨ c = '[' ∨ c = '(') : marks false leading (c :: cs) =
    (⟨.opener c, leading⟩ :: (marks false false cs).1, (marks false false cs).2) := by
  rw [marks.eq_def]
  rcases opens with rfl | rfl | rfl <;> simp

theorem marks_closer (closes : c = '\x7d' ∨ c = ']' ∨ c = ')') : marks false leading (c :: cs) =
    (⟨.closer c, leading⟩ :: (marks false leading cs).1, (marks false leading cs).2) := by
  rw [marks.eq_def]
  rcases closes with rfl | rfl | rfl <;> simp

/-- Characters of no meaning are passed over, and a lone sign of a comment too. -/
theorem marks_other (line : ¬(c = '/' ∧ cs.head? = some '/' ∨ c = '-' ∧ cs.head? = some '-'))
    (block : ¬(c = '/' ∧ cs.head? = some '*')) (quote : ¬(c = '"' ∨ c = '\''))
    (opener : ¬(c = '\x7b' ∨ c = '[' ∨ c = '(')) (closer : ¬(c = '\x7d' ∨ c = ']' ∨ c = ')'))
    (start : ¬isNameStart c = true) : marks false leading (c :: cs) = marks false (leading && isLineSpace c) cs := by
  rw [marks.eq_def]
  simp only [Bool.false_eq_true, if_false, if_neg line, if_neg block, if_neg quote, if_neg opener, if_neg closer,
    if_neg start]

theorem marks_plain (plain : isPlain c = true) :
    marks false leading (c :: cs) = marks false (leading && isLineSpace c) cs := by
  simp only [isPlain, signs, List.contains_cons, List.contains_nil, Bool.or_false, Bool.and_eq_true, Bool.not_eq_true',
    Bool.or_eq_false_iff, beq_eq_false_iff_ne] at plain
  apply marks_other <;> simp [plain]

theorem marks_single (isMark : c = '/' ∨ c = '-') (other : cs.head? ≠ some c)
    (block : c = '/' → cs.head? ≠ some '*') : marks false leading (c :: cs) = marks false false cs := by
  rcases isMark with rfl | rfl
  · rw [marks_other] <;> simp [other, block, isNameStart, isLineSpace]
  · rw [marks_other] <;> simp [other, isNameStart, isLineSpace]

theorem marks_word (start : isNameStart c = true) : marks false leading (c :: cs) =
    (⟨.word (String.ofList (c :: cs.takeWhile isNamePart)), leading⟩ ::
      (marks false false (cs.dropWhile isNamePart)).1, (marks false false (cs.dropWhile isNamePart)).2) := by
  have other : ∀ d ∈ signs, c ≠ d := by
    rintro d mem rfl
    have none : signs.all (!isNameStart ·) = true := by decide
    simpa [start] using List.all_eq_true.mp none c mem
  simp only [signs, List.forall_mem_cons, List.not_mem_nil, false_imp_iff, implies_true, and_true] at other
  rw [marks.eq_def]
  simp [other, start]

/-! ### Blanks at the ends of a line -/

/-- Characters of a kind that has no sign and no letter in it. -/
theorem isPlain_of {p : Char → Bool} (none : signs.all (!p ·) = true)
    (other : ∀ {d}, isNameStart d = true → p d = false) (holds : p c = true) : isPlain c = true := by
  have start : isNameStart c = false := by
    rw [Bool.eq_false_iff]
    intro start
    simp [other start] at holds
  rw [isPlain, start, Bool.not_false, Bool.and_true, Bool.not_eq_true', Bool.eq_false_iff]
  intro listed
  simpa [holds] using List.all_eq_true.mp none c (List.contains_iff_mem.mp listed)

theorem isPlain_of_isBlank (blank : isBlank c = true) : isPlain c = true :=
  isPlain_of (by decide) Lexer.isBlank_eq_false_of_isNameStart blank

theorem isPlain_of_isDigit (digit : Number.isDigit c = true) : isPlain c = true :=
  isPlain_of (by decide) Lexer.isDigit_eq_false_of_isNameStart digit

variable {trail : List Char} {quote : Char}

theorem head?_append_blanks (blank : ∀ c ∈ trail, isBlank c = true) (ink : isBlank c = false)
    (first : (cs ++ trail).head? = some c) : cs.head? = some c := by
  cases cs with
  | nil =>
    have mem : c ∈ trail := List.mem_of_head? first
    simp [blank c mem] at ink
  | cons d cs => exact first

theorem afterComment_cons (goesOn : c = '*' → cs.head? ≠ some '/') : afterComment (c :: cs) = afterComment cs := by
  rw [afterComment]
  rintro rest first rfl
  exact goesOn first rfl

/-- A comment that ends, ends at the same place whatever follows. -/
theorem afterComment_append (closes : afterComment cs = some rest) (more : List Char) :
    afterComment (cs ++ more) = some (rest ++ more) := by
  fun_induction afterComment cs with
  | case1 => cases closes
  | case2 rest' =>
    cases closes
    rfl
  | case3 c cs' unclosed ih =>
    rw [List.cons_append, afterComment_cons, ih closes]
    intro first next
    cases cs' with
    | nil => cases closes
    | cons d cs' =>
      cases next
      exact unclosed cs' first rfl

/-- No blank ends a comment. -/
theorem afterComment_blanks (blank : ∀ c ∈ trail, isBlank c = true)
    (never : afterComment cs = none) : afterComment (cs ++ trail) = none := by
  fun_induction afterComment cs with
  | case1 =>
    rw [List.nil_append]
    clear never
    induction trail with
    | nil => rfl
    | cons c trail ih =>
      rw [List.forall_mem_cons] at blank
      rw [afterComment_cons]
      · exact ih blank.2
      · rintro rfl
        exact absurd blank.1 (by decide)
  | case2 => cases never
  | case3 c cs' unclosed ih =>
    rw [List.cons_append, afterComment_cons]
    · exact ih never
    · intro first next
      obtain ⟨rest, rfl⟩ := List.head?_eq_some_iff.mp (head?_append_blanks blank (by decide) next)
      exact unclosed rest first rfl

theorem afterString_eq_nil (ink : isBlank quote = false)
    (blank : ∀ c ∈ trail, isBlank c = true) : afterString quote trail = [] := by
  fun_induction afterString quote trail with
  | case1 | case2 => rfl
  | case3 d rest => exact absurd (blank '\\' List.mem_cons_self) (by decide)
  | case4 d rest => simp [blank quote List.mem_cons_self] at ink
  | case5 c d rest escape close ih =>
    exact ih fun c mem => blank c (List.mem_cons_of_mem _ mem)

/-- Blanks behind a closed string are left, and those in an open one are not. -/
theorem afterString_blanks (ink : isBlank quote = false) (cs : List Char)
    (blank : ∀ c ∈ trail, isBlank c = true) : ∃ left, (∀ c ∈ left, isBlank c = true) ∧
      afterString quote (cs ++ trail) = afterString quote cs ++ left := by
  fun_induction afterString quote cs with
  | case1 => exact ⟨[], by simp, afterString_eq_nil ink blank⟩
  | case2 c =>
    cases trail with
    | nil => exact ⟨[], by simp, rfl⟩
    | cons d trail =>
      rw [List.cons_append, List.nil_append, afterString]
      split
      case isTrue => exact ⟨[], by simp, afterString_eq_nil ink fun c mem => blank c (List.mem_cons_of_mem _ mem)⟩
      case isFalse =>
        split
        case isTrue => exact ⟨d :: trail, blank, rfl⟩
        case isFalse => exact ⟨[], by simp, afterString_eq_nil ink blank⟩
  | case3 d rest ih =>
    rw [List.cons_append, List.cons_append, afterString, if_pos rfl]
    exact ih
  | case4 d rest escape =>
    refine ⟨trail, blank, ?_⟩
    rw [List.cons_append, List.cons_append, afterString, if_neg escape, if_pos rfl]
  | case5 c d rest escape close ih =>
    rw [List.cons_append, List.cons_append, afterString, if_neg escape, if_neg close]
    exact ih

theorem takeWhile_isNamePart_blanks (cs : List Char) (blank : ∀ c ∈ trail, isBlank c = true) :
    (cs ++ trail).takeWhile isNamePart = cs.takeWhile isNamePart ∧
      (cs ++ trail).dropWhile isNamePart = cs.dropWhile isNamePart ++ trail := by
  induction cs with
  | nil =>
    cases trail with
    | nil => exact ⟨rfl, rfl⟩
    | cons d trail =>
      have part : isNamePart d = false := by
        rw [Bool.eq_false_iff]
        intro part
        simpa [Lexer.isBlank_eq_false_of_isNamePart part] using blank d List.mem_cons_self
      simp [part]
  | cons c cs ih =>
    rw [List.cons_append]
    by_cases part : isNamePart c = true
    · simp [part, ih]
    · simp [part]

end Parts

variable {leading : Bool} {trail : List Char}

theorem marks_of_blanks (blank : ∀ c ∈ trail, isBlank c = true) : marks false leading trail = ([], false) := by
  induction trail generalizing leading with
  | nil => exact marks_nil
  | cons c trail ih =>
    rw [List.forall_mem_cons] at blank
    rw [marks_plain (isPlain_of_isBlank blank.1), ih blank.2]

theorem kinds_cons {mark : Mark} {other : Bool} {ms ms' : List Placed} (same : kinds ms = kinds ms') :
    kinds (⟨mark, other⟩ :: ms) = kinds (⟨mark, leading⟩ :: ms') := by
  simp only [kinds, List.filterMap_cons] at same ⊢
  rw [same]

/-- What is seen of a line depends neither on what leads it nor on blanks behind it. -/
theorem marks_blanks (inComment leading : Bool) (cs : List Char)
    (blank : ∀ c ∈ trail, isBlank c = true) (other : Bool) :
    kinds (marks inComment other (cs ++ trail)).1 = kinds (marks inComment leading cs).1 ∧
      (marks inComment other (cs ++ trail)).2 = (marks inComment leading cs).2 := by
  fun_induction marks inComment leading cs generalizing other trail with
  | case1 leading cs never =>
    rw [marks_open (afterComment_blanks blank never)]
    exact ⟨rfl, rfl⟩
  | case2 leading cs rest closes shorter ih =>
    rw [marks_closed (afterComment_append closes trail)]
    exact ih blank other
  | case3 inComment leading out =>
    obtain rfl := Bool.eq_false_iff.mpr out
    rw [List.nil_append, marks_of_blanks blank]
    exact ⟨rfl, rfl⟩
  | case4 inComment leading out c rest line =>
    obtain rfl := Bool.eq_false_iff.mpr out
    obtain ⟨isMark, rest, rfl⟩ : (c = '/' ∨ c = '-') ∧ ∃ tail, rest = c :: tail := by
      rcases line with ⟨rfl, next⟩ | ⟨rfl, next⟩
      · exact ⟨.inl rfl, List.head?_eq_some_iff.mp next⟩
      · exact ⟨.inr rfl, List.head?_eq_some_iff.mp next⟩
    rw [List.cons_append, List.cons_append, marks_lineComment isMark]
    exact ⟨rfl, rfl⟩
  | case5 inComment leading out c rest line block shorter ih =>
    obtain rfl := Bool.eq_false_iff.mpr out
    obtain ⟨rfl, next⟩ := block
    obtain ⟨rest, rfl⟩ := List.head?_eq_some_iff.mp next
    rw [List.cons_append, List.cons_append, marks_blockComment]
    exact ih blank other
  | case6 inComment leading out c rest line block quote shorter ih =>
    obtain rfl := Bool.eq_false_iff.mpr out
    have ink : isBlank c = false := by rcases quote with rfl | rfl <;> decide
    obtain ⟨left, blank', after⟩ := afterString_blanks ink rest blank
    rw [List.cons_append, marks_string quote, after]
    exact ih blank' false
  | case7 inComment leading out c rest line block quote opener found comment marked ih =>
    obtain rfl := Bool.eq_false_iff.mpr out
    obtain ⟨same, flag⟩ := ih blank false
    rw [marked] at same flag
    rw [List.cons_append, marks_opener opener]
    exact ⟨kinds_cons same, flag⟩
  | case8 inComment leading out c rest line block quote opener closer found comment marked ih =>
    obtain rfl := Bool.eq_false_iff.mpr out
    obtain ⟨same, flag⟩ := ih blank other
    rw [marked] at same flag
    rw [List.cons_append, marks_closer closer]
    exact ⟨kinds_cons same, flag⟩
  | case9 inComment leading out c rest line block quote opener closer start shorter word found comment marked =>
    rename_i ih
    obtain rfl := Bool.eq_false_iff.mpr out
    obtain ⟨same, flag⟩ := ih blank false
    obtain ⟨name, behindName⟩ := takeWhile_isNamePart_blanks rest blank
    rw [marked] at same flag
    rw [List.cons_append, marks_word start, name, behindName]
    exact ⟨kinds_cons same, flag⟩
  | case10 inComment leading out c rest line block quote opener closer start ih =>
    obtain rfl := Bool.eq_false_iff.mpr out
    -- Blanks do not make a sign of a comment out of a character that was none.
    have line' : ¬(c = '/' ∧ (rest ++ trail).head? = some '/' ∨ c = '-' ∧ (rest ++ trail).head? = some '-') := by
      rintro (⟨isMark, next⟩ | ⟨isMark, next⟩)
      · exact line (.inl ⟨isMark, head?_append_blanks blank (by decide) next⟩)
      · exact line (.inr ⟨isMark, head?_append_blanks blank (by decide) next⟩)
    have block' : ¬(c = '/' ∧ (rest ++ trail).head? = some '*') := by
      rintro ⟨isMark, next⟩
      exact block ⟨isMark, head?_append_blanks blank (by decide) next⟩
    rw [List.cons_append, marks_other line' block' quote opener closer start]
    exact ih blank _

/-! ### Lines and what is seen of them -/

section Lines

variable {inComment : Bool} {cs rest : List Char} {c : Char}

theorem seen_eq (inComment leading : Bool) (cs : List Char) :
    (kinds (marks inComment leading cs).1, (marks inComment leading cs).2) = seen inComment cs := by
  have same := marks_blanks inComment true cs (List.forall_mem_nil _) leading
  rw [List.append_nil] at same
  exact Prod.ext same.1 same.2

theorem seen_append_blanks {trail : List Char} (blank : ∀ c ∈ trail, isBlank c = true) :
    seen inComment (cs ++ trail) = seen inComment cs := by
  have same := marks_blanks inComment true cs blank true
  exact Prod.ext same.1 same.2

theorem seen_of_afterComment {cs cs' : List Char} (same : afterComment cs = afterComment cs') :
    seen true cs = seen true cs' := by
  cases closes : afterComment cs' with
  | none =>
    rw [seen, marks_open (same.trans closes), seen, marks_open closes]
  | some rest =>
    rw [seen, marks_closed (same.trans closes), seen, marks_closed closes]

theorem seen_blanks_append {lead : List Char} (blank : ∀ c ∈ lead, isBlank c = true) :
    seen inComment (lead ++ cs) = seen inComment cs := by
  induction lead with
  | nil => rfl
  | cons c lead ih =>
    rw [List.forall_mem_cons] at blank
    rw [← ih blank.2, List.cons_append]
    cases inComment with
    | true =>
      apply seen_of_afterComment
      apply afterComment_cons
      rintro rfl
      exact absurd blank.1 (by decide)
    | false => rw [seen, marks_plain (isPlain_of_isBlank blank.1), seen_eq]

/-- Trimming changes nothing for what is seen. -/
theorem seen_trim (inComment : Bool) (line : List Char) : seen inComment (Text.trim line) = seen inComment line := by
  obtain ⟨lead, trail, whole, blank, blank'⟩ := Text.exists_trimmed line
  calc seen inComment (Text.trim line)
    _ = seen inComment (Text.trim line ++ trail) := (seen_append_blanks blank').symm
    _ = seen inComment (lead ++ (Text.trim line ++ trail)) := (seen_blanks_append blank).symm
    _ = seen inComment line := by rw [← whole]

theorem seen_withoutReturn (inComment : Bool) (line : List Char) :
    seen inComment (Text.withoutReturn line) = seen inComment line := by
  rw [← seen_trim, Text.trim_withoutReturn, seen_trim]

end Lines

end Layout

end Sketch
