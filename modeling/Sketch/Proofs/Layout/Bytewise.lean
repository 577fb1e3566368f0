import Sketch.Proofs.Layout.Scanner
import Sketch.Proofs.Text.Bytes

/-!
The formatter at work on bytes. It cuts words and the rest of comments out of a line by indices that count bytes. All
these cuts are between characters, and the marks that it finds are those of the characters.
-/

namespace Sketch.Layout

open ErrorLine (byteSize byteLength)
open Text (bytes charBytes behind? cut? find? OnlyAscii)
open Lexer (isNameStart isNamePart)

/-- The index behind a string literal whose text begins at the byte `i`. -/
def stringEnd (line : List Char) (quote : Char) (i : Nat) : Nat :=
  byteLength line - (afterString quote ((bytes line).drop i)).length

variable {line : List Char} {i : Nat} {b quote : Char}

theorem lt_byteLength_of_drop {rest : List Char} (ahead : (bytes line).drop i = b :: rest) : i < byteLength line := by
  rw [← Text.length_bytes]
  by_contra outside
  rw [List.drop_eq_nil_of_le (Nat.le_of_not_lt outside)] at ahead
  cases ahead

theorem lt_stringEnd (quote : Char) (inside : i < byteLength line) : i < stringEnd line quote (i + 1) := by
  have shorter := afterString_length_le quote ((bytes line).drop (i + 1))
  rw [List.length_drop, Text.length_bytes] at shorter
  rw [stringEnd]
  omega

/-- The marks of a line from the byte `i` on, unless it had to be cut inside a character. -/
def marks? (line : List Char) (inComment leading : Bool) (i : Nat) : Option (List Placed × Bool) :=
  match ahead : (bytes line).drop i with
  | [] => some ([], inComment)
  | b :: rest =>
    have inside := lt_byteLength_of_drop ahead
    if inComment then
      match behind? line i with
      | none => none
      | some after =>
        match find? ['*', '/'] after with
        | none => some ([], true)
        | some n => marks? line false leading (i + n + 2)
    else if (b = '/' ∧ rest.head? = some '/') ∨ (b = '-' ∧ rest.head? = some '-') then some ([], false)
    else if b = '/' ∧ rest.head? = some '*' then marks? line true leading (i + 2)
    else if b = '"' ∨ b = '\'' then
      have := lt_stringEnd b inside
      marks? line false false (stringEnd line b (i + 1))
    else if b = '\x7b' ∨ b = '[' ∨ b = '(' then
      (marks? line false false (i + 1)).map fun (found, comment) => (⟨.opener b, leading⟩ :: found, comment)
    else if b = '\x7d' ∨ b = ']' ∨ b = ')' then
      (marks? line false leading (i + 1)).map fun (found, comment) => (⟨.closer b, leading⟩ :: found, comment)
    else if isNameStart b then
      let j := i + 1 + (rest.takeWhile isNamePart).length
      match cut? line i j with
      | none => none
      | some word =>
        (marks? line false false j).map fun (found, comment) =>
          (⟨.word (String.ofList word), leading⟩ :: found, comment)
    else marks? line false (leading && isLineSpace b) (i + 1)
termination_by byteLength line - i
decreasing_by all_goals omega

section Steps

variable {line rest before : List Char} {inComment leading : Bool} {i : Nat} {b c : Char}

theorem marks?_end (ended : (bytes line).drop i = []) : marks? line inComment leading i = some ([], inComment) := by
  rw [marks?]
  split
  case h_1 => rfl
  case h_2 ahead => simp [ended] at ahead

/-- A step outside comments looks at a byte and the one behind it. -/
theorem marks?_step (ahead : (bytes line).drop i = b :: rest) : marks? line false leading i =
    if (b = '/' ∧ rest.head? = some '/') ∨ (b = '-' ∧ rest.head? = some '-') then some ([], false)
    else if b = '/' ∧ rest.head? = some '*' then marks? line true leading (i + 2)
    else if b = '"' ∨ b = '\'' then marks? line false false (stringEnd line b (i + 1))
    else if b = '\x7b' ∨ b = '[' ∨ b = '(' then
      (marks? line false false (i + 1)).map fun (found, comment) => (⟨.opener b, leading⟩ :: found, comment)
    else if b = '\x7d' ∨ b = ']' ∨ b = ')' then
      (marks? line false leading (i + 1)).map fun (found, comment) => (⟨.closer b, leading⟩ :: found, comment)
    else if isNameStart b then
      (cut? line i (i + 1 + (rest.takeWhile isNamePart).length)).bind fun word =>
        (marks? line false false (i + 1 + (rest.takeWhile isNamePart).length)).map fun (found, comment) =>
          (⟨.word (String.ofList word), leading⟩ :: found, comment)
    else marks? line false (leading && isLineSpace b) (i + 1) := by
  rw [marks?]
  split
  case h_1 ended => simp [ended] at ahead
  case h_2 b' rest' ahead' =>
    obtain ⟨rfl, rfl⟩ := List.cons.inj (ahead.symm.trans ahead')
    simp only [Bool.false_eq_true, if_false]
    cases cut? line i (i + 1 + (rest.takeWhile isNamePart).length) <;> rfl

/-- A step inside a comment looks for its end. -/
theorem marks?_inComment (ahead : (bytes line).drop i = b :: rest) : marks? line true leading i =
    (behind? line i).bind fun after =>
      (find? ['*', '/'] after).elim (some ([], true)) fun n => marks? line false leading (i + n + 2) := by
  rw [marks?]
  split
  case h_1 ended => simp [ended] at ahead
  case h_2 =>
    rw [if_pos rfl]
    cases behind? line i with
    | none => rfl
    | some after =>
      dsimp only [Option.bind_some]
      cases find? ['*', '/'] after <;> rfl

end Steps

/-! ### Bytes of longer characters -/

theorem onlyAscii_isLineSpace : OnlyAscii isLineSpace := by
  intro c space
  simp only [isLineSpace, Bool.or_eq_true, decide_eq_true_eq] at space
  rcases space with (((rfl | rfl) | rfl) | rfl) | form
  · decide
  · decide
  · decide
  · decide
  · omega

section High

variable {line rest before : List Char} {leading : Bool} {i : Nat} {b c : Char}

/-- A byte above those of ASCII is passed over, and nothing leads the line any more. -/
theorem marks?_high (ahead : (bytes line).drop i = b :: rest) (high : 128 ≤ b.toNat) :
    marks? line false leading i = marks? line false false (i + 1) := by
  have other {d : Char} (ascii : d.toNat < 128) : b ≠ d := by
    rintro rfl
    omega
  have start : isNameStart b = false := Bool.eq_false_iff.mpr fun start => by
    have := Text.onlyAscii_isNameStart b start
    omega
  have space : isLineSpace b = false := Bool.eq_false_iff.mpr fun space => by
    have := onlyAscii_isLineSpace b space
    omega
  rw [marks?_step ahead]
  simp [other, start, space]

/-- So are all bytes of a longer character. -/
theorem marks?_wide (wide : ¬c.toNat < 128) (before rest : List Char) :
    marks? (before ++ c :: rest) false leading (byteLength before) =
      marks? (before ++ c :: rest) false false (byteLength (before ++ [c])) := by
  have pass (high : List Char) (i : Nat) (leading : Bool)
      (ahead : (bytes (before ++ c :: rest)).drop i = high ++ bytes rest)
      (some : high ≠ []) (above : ∀ b ∈ high, 128 ≤ b.toNat) :
      marks? (before ++ c :: rest) false leading i = marks? (before ++ c :: rest) false false (i + high.length) := by
    induction high generalizing i leading with
    | nil => exact absurd rfl some
    | cons b high ih =>
      rw [List.forall_mem_cons] at above
      rw [marks?_high ahead above.1]
      have ahead' : (bytes (before ++ c :: rest)).drop (i + 1) = high ++ bytes rest := by
        rw [← List.drop_drop, ahead]
        rfl
      by_cases last : high = []
      · rw [last]
        rfl
      · rw [ih (i + 1) false ahead' last above.2, List.length_cons, Nat.add_right_comm, Nat.add_assoc]
  rw [pass (charBytes c) _ leading (Text.drop_bytes before (c :: rest)) (Text.charBytes_ne_nil c)
    fun b mem => Text.le_of_mem_charBytes wide mem, Text.length_charBytes, Text.byteLength_append]
  rfl

end High

/-! ### Comments, strings and words -/

theorem splitOnce_closes (cs : List Char) : (Text.splitOnce ['*', '/'] cs).map (·.2) = afterComment cs := by
  fun_induction afterComment cs with
  | case1 => rfl
  | case2 rest => rfl
  | case3 c cs open_ ih =>
    have other : Text.dropPiece? ['*', '/'] (c :: cs) = none := by
      rw [Text.dropPiece?_eq_none_iff]
      rintro ⟨rest, same⟩
      obtain ⟨rfl, rfl⟩ := List.cons.inj same
      exact open_ rest rfl rfl
    rw [Text.splitOnce, other, ← ih, Option.map_map]
    rfl

theorem afterString_cons (escape : b ≠ '\\') (close : b ≠ quote) (cs : List Char) :
    afterString quote (b :: cs) = afterString quote cs := by
  cases cs with
  | nil => rfl
  | cons d cs => rw [afterString, if_neg escape, if_neg close]

theorem afterString_high (ascii : quote.toNat < 128) {high : List Char}
    (above : ∀ b ∈ high, 128 ≤ b.toNat) (cs : List Char) : afterString quote (high ++ cs) = afterString quote cs := by
  induction high with
  | nil => rfl
  | cons b high ih =>
    rw [List.forall_mem_cons] at above
    have other {d : Char} (ascii : d.toNat < 128) : b ≠ d := by
      rintro rfl
      omega
    rw [List.cons_append, afterString_cons (other (by decide)) (other ascii), ih above.2]

/-- A string ends at the same place among bytes as among characters. -/
theorem afterString_bytes (ascii : quote.toNat < 128) (cs : List Char) :
    afterString quote (bytes cs) = bytes (afterString quote cs) := by
  have high {c : Char} (wide : ¬c.toNat < 128) : ∀ b ∈ charBytes c, 128 ≤ b.toNat :=
    fun b mem => Text.le_of_mem_charBytes wide mem
  have single {c : Char} (cs : List Char) (escape : c ≠ '\\') (close : c ≠ quote) :
      afterString quote (bytes (c :: cs)) = afterString quote (bytes cs) := by
    by_cases small : c.toNat < 128
    · rw [Text.bytes_cons_of_ascii small, afterString_cons escape close]
    · rw [Text.bytes_cons, afterString_high ascii (high small)]
  fun_induction afterString quote cs with
  | case1 => rfl
  | case2 c =>
    by_cases small : c.toNat < 128
    · rw [Text.bytes_cons_of_ascii small]
      rfl
    · rw [Text.bytes_cons, afterString_high ascii (high small)]
      rfl
  | case3 d rest ih =>
    rw [← ih, Text.bytes_cons_of_ascii (by decide), Text.bytes_cons]
    by_cases small : d.toNat < 128
    · rw [Text.charBytes_of_ascii small, List.singleton_append, afterString, if_pos rfl]
    · obtain ⟨b, more, split⟩ := List.exists_cons_of_ne_nil (Text.charBytes_ne_nil d)
      have above := high small
      rw [split, List.forall_mem_cons] at above
      rw [split, List.cons_append, afterString, if_pos rfl, afterString_high ascii above.2]
  | case4 d rest escape =>
    obtain ⟨b, more, split⟩ := List.exists_cons_of_ne_nil (Text.charBytes_ne_nil d)
    rw [Text.bytes_cons_of_ascii ascii, Text.bytes_cons, split, List.cons_append, afterString, if_neg escape,
      if_pos rfl]
  | case5 c d rest escape close ih => rw [single _ escape close, ih]

theorem afterString_suffix (quote : Char) (cs : List Char) : afterString quote cs <:+ cs := by
  fun_induction afterString quote cs with
  | case1 => exact List.suffix_refl []
  | case2 c => exact List.nil_suffix
  | case3 d rest ih =>
    exact ih.trans ((List.suffix_cons d rest).trans (List.suffix_cons _ _))
  | case4 d rest escape => exact List.suffix_cons _ _
  | case5 c d rest escape close ih => exact ih.trans (List.suffix_cons _ _)

/-- A string ends at the same place in bytes. -/
theorem stringEnd_eq (ascii : quote.toNat < 128) (before rest : List Char) :
    ∃ used, rest = used ++ afterString quote rest ∧
      stringEnd (before ++ quote :: rest) quote (byteLength before + 1) = byteLength (before ++ quote :: used) := by
  obtain ⟨used, whole⟩ := afterString_suffix quote rest
  have size : byteLength before + 1 = byteLength (before ++ [quote]) := by
    rw [Text.byteLength_append, Text.byteLength_cons, Text.byteSize_eq_one_iff.mpr ascii, Text.byteLength_nil]
  have ahead : (bytes (before ++ quote :: rest)).drop (byteLength before + 1) = bytes rest := by
    rw [List.append_cons, size, Text.drop_bytes]
  have total := congrArg byteLength whole
  rw [Text.byteLength_append] at total
  refine ⟨used, whole.symm, ?_⟩
  rw [stringEnd, ahead, afterString_bytes ascii, Text.length_bytes, Text.byteLength_append, Text.byteLength_append,
    Text.byteLength_cons, Text.byteLength_cons]
  omega

/-! ### Lines -/

section Lines

variable {rest : List Char} {leading : Bool} {c : Char}

/-- A step at a character of ASCII. -/
theorem marks?_ascii (ascii : c.toNat < 128) (before rest : List Char) :
    marks? (before ++ c :: rest) false leading (byteLength before) =
      if (c = '/' ∧ rest.head? = some '/') ∨ (c = '-' ∧ rest.head? = some '-') then some ([], false)
      else if c = '/' ∧ rest.head? = some '*' then marks? (before ++ c :: rest) true leading (byteLength before + 2)
      else if c = '"' ∨ c = '\'' then
        marks? (before ++ c :: rest) false false (stringEnd (before ++ c :: rest) c (byteLength before + 1))
      else if c = '\x7b' ∨ c = '[' ∨ c = '(' then
        (marks? (before ++ c :: rest) false false (byteLength (before ++ [c]))).map fun (found, comment) =>
          (⟨.opener c, leading⟩ :: found, comment)
      else if c = '\x7d' ∨ c = ']' ∨ c = ')' then
        (marks? (before ++ c :: rest) false leading (byteLength (before ++ [c]))).map fun (found, comment) =>
          (⟨.closer c, leading⟩ :: found, comment)
      else if isNameStart c then
        (marks? (before ++ c :: rest) false false (byteLength (before ++ c :: rest.takeWhile isNamePart))).map
          fun (found, comment) =>
            (⟨.word (String.ofList (c :: rest.takeWhile isNamePart)), leading⟩ :: found, comment)
      else marks? (before ++ c :: rest) false (leading && isLineSpace c) (byteLength (before ++ [c])) := by
  have size : byteSize c = 1 := Text.byteSize_eq_one_iff.mpr ascii
  have next : byteLength (before ++ [c]) = byteLength before + 1 := by
    rw [Text.byteLength_append, Text.byteLength_cons, size, Text.byteLength_nil]
  have ahead : (bytes (before ++ c :: rest)).drop (byteLength before) = c :: bytes rest := by
    rw [Text.drop_bytes, Text.bytes_cons_of_ascii ascii]
  have parts : ∀ d ∈ rest.takeWhile isNamePart, d.toNat < 128 := fun d mem =>
    Text.onlyAscii_isNamePart d (List.mem_takeWhile_imp mem)
  have wordSize : byteLength (c :: rest.takeWhile isNamePart) = 1 + (rest.takeWhile isNamePart).length := by
    rw [Text.byteLength_cons, size, Text.byteLength_of_ascii parts]
  have wordEnd : byteLength (before ++ c :: rest.takeWhile isNamePart) =
      byteLength before + 1 + (rest.takeWhile isNamePart).length := by
    rw [Text.byteLength_append, wordSize, Nat.add_assoc]
  have word : cut? (before ++ c :: rest) (byteLength before)
      (byteLength before + 1 + (rest.takeWhile isNamePart).length) =
      some (c :: rest.takeWhile isNamePart) := by
    have cut := Text.cut?_append before (c :: rest.takeWhile isNamePart) (rest.dropWhile isNamePart)
    rwa [List.cons_append, List.takeWhile_append_dropWhile, wordSize, ← Nat.add_assoc] at cut
  rw [marks?_step ahead, next, wordEnd, Text.takeWhile_bytes Text.onlyAscii_isNamePart, word, Option.bind_some]
  simp only [Text.head?_bytes (d := '/') (by decide), Text.head?_bytes (d := '-') (by decide),
    Text.head?_bytes (d := '*') (by decide)]

/-- In front of a character there is a byte. -/
theorem exists_drop_bytes (before : List Char) (c : Char) (rest : List Char) :
    ∃ b more, (bytes (before ++ c :: rest)).drop (byteLength before) = b :: more := by
  obtain ⟨b, more, split⟩ := List.exists_cons_of_ne_nil (Text.charBytes_ne_nil c)
  exact ⟨b, more ++ bytes rest, by rw [Text.drop_bytes, Text.bytes_cons, split, List.cons_append]⟩

/-- From between two characters on, bytes have the marks of characters. -/
theorem marks?_eq (inComment leading : Bool) (rest before : List Char) :
    marks? (before ++ rest) inComment leading (byteLength before) = some (marks inComment leading rest) := by
  fun_induction marks inComment leading rest generalizing before with
  | case1 leading rest never =>
    cases rest with
    | nil => exact marks?_end (Text.drop_bytes before [])
    | cons c rest =>
      obtain ⟨b, more, ahead⟩ := exists_drop_bytes before c rest
      have absent : find? ['*', '/'] (c :: rest) = none := by
        rw [find?, Option.map_eq_none_iff, ← Option.map_eq_none_iff (f := (·.2)), splitOnce_closes, never]
      rw [marks?_inComment ahead, Text.behind?_append, Option.bind_some, absent]
      rfl
  | case2 leading rest after closes shorter ih =>
    obtain ⟨⟨text, after'⟩, found, same⟩ := Option.map_eq_some_iff.mp ((splitOnce_closes rest).trans closes)
    obtain rfl : after' = after := same
    obtain ⟨whole, -⟩ := Text.splitOnce_eq_some_iff.mp found
    have line : before ++ rest = (before ++ (text ++ ['*', '/'])) ++ after' := by
      rw [whole, List.append_assoc, List.append_assoc]
    have place : byteLength before + byteLength text + 2 = byteLength (before ++ (text ++ ['*', '/'])) := by
      rw [Text.byteLength_append, Text.byteLength_append, Nat.add_assoc]
      rfl
    have closed := ih (before ++ (text ++ ['*', '/']))
    rw [← line, ← place] at closed
    cases rest with
    | nil => cases closes
    | cons c rest =>
      obtain ⟨b, more, ahead⟩ := exists_drop_bytes before c rest
      rw [marks?_inComment ahead, Text.behind?_append, Option.bind_some, Text.find?_eq found]
      exact closed
  | case3 inComment leading out =>
    obtain rfl := Bool.eq_false_iff.mpr out
    exact marks?_end (Text.drop_bytes before [])
  | case4 inComment leading out c rest line =>
    obtain rfl := Bool.eq_false_iff.mpr out
    have ascii : c.toNat < 128 := by rcases line with ⟨rfl, -⟩ | ⟨rfl, -⟩ <;> decide
    rw [marks?_ascii ascii, if_pos line]
  | case5 inComment leading out c rest line block shorter ih =>
    obtain rfl := Bool.eq_false_iff.mpr out
    obtain ⟨rfl, next⟩ := block
    obtain ⟨rest, rfl⟩ := List.head?_eq_some_iff.mp next
    have opened := ih (before ++ ['/', '*'])
    rw [List.append_assoc, Text.byteLength_append] at opened
    rw [marks?_ascii (by decide), if_neg line, if_pos ⟨rfl, rfl⟩]
    exact opened
  | case6 inComment leading out c rest line block quote shorter ih =>
    obtain rfl := Bool.eq_false_iff.mpr out
    have ascii : c.toNat < 128 := by rcases quote with rfl | rfl <;> decide
    obtain ⟨used, whole, place⟩ := stringEnd_eq ascii before rest
    have passed := ih (before ++ c :: used)
    rw [List.append_assoc, List.cons_append, ← whole] at passed
    rw [marks?_ascii ascii, if_neg line, if_neg block, if_pos quote, place, passed]
  | case7 inComment leading out c rest line block quote opener found comment marked ih =>
    obtain rfl := Bool.eq_false_iff.mpr out
    have ascii : c.toNat < 128 := by rcases opener with rfl | rfl | rfl <;> decide
    have behind := ih (before ++ [c])
    rw [List.append_assoc, List.singleton_append, marked] at behind
    rw [marks?_ascii ascii, if_neg line, if_neg block, if_neg quote, if_pos opener, behind]
    rfl
  | case8 inComment leading out c rest line block quote opener closer found comment marked ih =>
    obtain rfl := Bool.eq_false_iff.mpr out
    have ascii : c.toNat < 128 := by rcases closer with rfl | rfl | rfl <;> decide
    have behind := ih (before ++ [c])
    rw [List.append_assoc, List.singleton_append, marked] at behind
    rw [marks?_ascii ascii, if_neg line, if_neg block, if_neg quote, if_neg opener, if_pos closer, behind]
    rfl
  | case9 inComment leading out c rest line block quote opener closer start shorter word found comment marked =>
    rename_i ih
    obtain rfl := Bool.eq_false_iff.mpr out
    have behind := ih (before ++ c :: rest.takeWhile isNamePart)
    rw [List.append_assoc, List.cons_append, List.takeWhile_append_dropWhile, marked] at behind
    rw [marks?_ascii (Text.onlyAscii_isNameStart c start), if_neg line, if_neg block, if_neg quote, if_neg opener,
      if_neg closer, if_pos start, behind]
    rfl
  | case10 inComment leading out c rest line block quote opener closer start ih =>
    obtain rfl := Bool.eq_false_iff.mpr out
    have behind := ih (before ++ [c])
    rw [List.append_assoc, List.singleton_append] at behind
    by_cases ascii : c.toNat < 128
    · rw [marks?_ascii ascii, if_neg line, if_neg block, if_neg quote, if_neg opener, if_neg closer, if_neg start,
        behind]
    · have space : isLineSpace c = false := Bool.eq_false_iff.mpr fun space => ascii (onlyAscii_isLineSpace c space)
      rw [space, Bool.and_false] at behind ⊢
      rw [marks?_wide ascii, behind]

end Lines

/-! ### Texts -/

/-- Lines at their depth, when each is read byte by byte. -/
def formatLines? (depth : Nat) (inComment : Bool) : List (List Char) → Option (List (List Char))
  | [] => some []
  | raw :: rest =>
    let line := Text.trim raw
    if line = [] then (formatLines? depth inComment rest).map ([] :: ·)
    else
      match marks? line inComment true 0 with
      | none => none
      | some (ms, comment) =>
        let s := shape ms
        (formatLines? ((depth : Int) + s.delta).toNat comment rest).map ((indent (depth - s.dedent) ++ line) :: ·)

/-- A sketch with its lines at their depth, read byte by byte, unless a cut was inside a character. -/
def format? (source : String) : Option String :=
  let cs := source.toList
  (formatLines? 0 false (Text.lines cs)).map fun lines =>
    String.ofList (if cs.getLast? = some '\n' then joinLines lines ++ ['\n'] else joinLines lines)

theorem formatLines?_eq (depth : Nat) (inComment : Bool) (lines : List (List Char)) :
    formatLines? depth inComment lines = some (formatLines depth inComment lines) := by
  induction lines generalizing depth inComment with
  | nil => rfl
  | cons raw rest ih =>
    rw [formatLines?, formatLines]
    split
    case isTrue => rw [ih, Option.map_some]
    case isFalse =>
      have marked : marks? (Text.trim raw) inComment true 0 = some (marks inComment true (Text.trim raw)) :=
        marks?_eq inComment true (Text.trim raw) []
      simp only [marked, ih, Option.map_some]

/-- The formatter never cuts inside a character. -/
theorem format?_eq (source : String) : format? source = some (format source) := by
  rw [format?, formatLines?_eq]
  rfl

end Sketch.Layout
