import Mathlib.Data.List.Forall2
import Sketch.Proofs.Text.Bytes

/-!
The search for the line of an error, at work on bytes. Places of a copy in small letters are used in the original. The
only cut that can lie inside a character is that of an undefined name.
-/

namespace Sketch.Text

open ErrorLine (byteSize byteLength)

/-! ### Occurrences -/

section Occurrences

variable {piece text before cs : List Char} {p : Char} {ps : List Char} {skip : Nat}

/-- A place where `piece` occurs, and what `look` sees of the text around it. -/
def Sees {α : Type} (look : List Char → List Char → α) (piece text : List Char) (i : Nat) (seen : α) : Prop :=
  ∃ before after, text = before ++ (piece ++ after) ∧ i = byteLength before ∧ seen = look before after

/-- Occurrences in bytes have the neighbours of those in characters. -/
theorem occurrences_neighbours (whole : text = before ++ cs) :
    List.Forall₂ (Sees (fun before after => (before.getLast?, after.head?)) piece text)
      (occurrences piece (byteLength before) skip cs) (neighbours piece before.getLast? skip cs) := by
  induction cs generalizing before skip with
  | nil =>
    cases piece with
    | nil => cases skip <;> exact .cons ⟨before, [], whole, rfl, rfl⟩ .nil
    | cons p ps => cases skip <;> exact .nil
  | cons c cs ih =>
    have next (skip : Nat) := @ih (before ++ [c]) skip
      (by rw [whole, List.append_assoc, List.singleton_append])
    simp only [byteLength_append, byteLength_cons, byteLength_nil, Nat.add_zero, List.getLast?_append,
      List.getLast?_singleton, Option.some_or] at next
    cases skip with
    | succ skip => exact next skip
    | zero =>
      rw [occurrences, neighbours]
      cases starts : dropPiece? piece (c :: cs) with
      | none => exact next 0
      | some after =>
        apply List.Forall₂.cons _ (next _)
        exact ⟨before, after, by rw [whole, dropPiece?_eq_some_iff.mp starts], rfl, rfl⟩

/-- A piece whose first character is not found again in it does not overlap itself. -/
theorem occurrences_afterEach (alone : p ∉ ps) (whole : text = before ++ cs) (skipped : p ∉ cs.take skip) :
    List.Forall₂ (Sees (fun _ after => after) (p :: ps) text)
      (occurrences (p :: ps) (byteLength before) skip cs) (afterEach (p :: ps) cs) := by
  induction cs generalizing before skip with
  | nil => cases skip <;> exact .nil
  | cons c cs ih =>
    have next (skip : Nat) := @ih (before ++ [c]) skip
      (by rw [whole, List.append_assoc, List.singleton_append])
    simp only [byteLength_append, byteLength_cons, byteLength_nil, Nat.add_zero] at next
    cases skip with
    | succ skip =>
      rw [List.take_succ_cons, List.mem_cons, not_or] at skipped
      have other : dropPiece? (p :: ps) (c :: cs) = none := by
        rw [dropPiece?_eq_none_iff, List.cons_prefix_cons]
        exact fun starts => skipped.1 starts.1
      rw [occurrences, afterEach, other]
      exact next skip skipped.2
    | zero =>
      rw [occurrences, afterEach]
      cases starts : dropPiece? (p :: ps) (c :: cs) with
      | none => exact next 0 (by simp)
      | some after =>
        obtain ⟨rfl, rest⟩ := List.cons.inj (dropPiece?_eq_some_iff.mp starts)
        rw [List.append_eq] at rest
        apply List.Forall₂.cons ⟨before, after, by rw [whole, rest]; rfl, rfl, rfl⟩
        apply next
        rwa [List.length_cons, Nat.add_sub_cancel, rest, List.take_left]

theorem anyM_of_forall₂ {α : Type} {relation : Nat → α → Prop} {test : Nat → Option Bool} {test' : α → Bool}
    (agree : ∀ i seen, relation i seen → test i = some (test' seen)) {places : List Nat} {seen : List α}
    (related : List.Forall₂ relation places seen) : places.anyM test = some (seen.any test') := by
  induction related with
  | nil => rfl
  | cons head tail ih =>
    rw [List.anyM, agree _ _ head, ih, List.any_cons]
    cases test' _ <;> rfl

theorem findSomeM?_of_forall₂ {α β γ : Type} {relation : γ → α → Prop} {find : γ → Option (Option β)}
    {find' : α → Option β} (agree : ∀ i seen, relation i seen → find i = some (find' seen)) {places : List γ}
    {seen : List α} (related : List.Forall₂ relation places seen) :
    places.findSomeM? find = some (seen.findSome? find') := by
  induction related with
  | nil => rfl
  | cons head tail ih =>
    rw [List.findSomeM?, agree _ _ head, ih, List.findSome?_cons]
    cases find' _ <;> rfl

end Occurrences

/-! ### Small letters -/

section SmallLetters

variable {c : Char}

theorem toLower_cases (c : Char) : c.toLower = c ∨ (65 ≤ c.toNat ∧ c.toNat ≤ 90 ∧ c.toLower.toNat = c.toNat + 32) := by
  delta Char.toLower
  split
  case isTrue capital =>
    have low : 65 ≤ c.val.toNat := UInt32.le_iff_toNat_le.mp capital.1
    have high : c.val.toNat ≤ 90 := UInt32.le_iff_toNat_le.mp capital.2
    refine .inr ⟨low, high, ?_⟩
    change (c.val + 32).toNat = c.val.toNat + 32
    rw [UInt32.toNat_add]
    exact Nat.mod_eq_of_lt (by change c.val.toNat + 32 < 4294967296; omega)
  case isFalse => exact .inl rfl

theorem byteSize_toLower (c : Char) : byteSize c.toLower = byteSize c := by
  rcases toLower_cases c with same | ⟨low, high, lowered⟩
  · rw [same]
  · rw [byteSize_eq_one_iff.mpr (by omega), byteSize_eq_one_iff.mpr (by omega)]

theorem byteLength_map_toLower (cs : List Char) : byteLength (cs.map Char.toLower) = byteLength cs := by
  induction cs with
  | nil => rfl
  | cons c cs ih =>
    rw [List.map_cons, byteLength_cons, byteLength_cons, byteSize_toLower, ih]

/-- A test that no letter of ASCII passes does not see the difference. -/
theorem apply_toLower {p : Char → Bool} (none : ∀ d : Char, 65 ≤ d.toNat → d.toNat ≤ 122 → p d = false) (c : Char) :
    p c.toLower = p c := by
  rcases toLower_cases c with same | ⟨low, high, lowered⟩
  · rw [same]
  · rw [none c low (by omega), none c.toLower (by omega) (by omega)]

end SmallLetters

end Sketch.Text

namespace Sketch.ErrorLine

open Text (bytes upTo? behind? cut? splitAt? find? findLast? occurrences)

/-! ### Numbers in a message -/

/-- What may stand between a word and its number. -/
def isSeparator (c : Char) : Bool := c = ':' || Text.isBlank c

/-- The number behind colons and blanks. -/
def leadingNumber (after : List Char) : Option Nat :=
  let rest := after.dropWhile isSeparator
  if rest.length = after.length then none else number? (rest.takeWhile Number.isDigit)

/-- `numberAfter` with a search in the copy in small letters. -/
def numberAfter? (word text : List Char) : Option (Option Nat) :=
  (occurrences word 0 0 (text.map Char.toLower)).findSomeM? fun i =>
    (behind? text (i + byteLength word)).map fun after =>
      let rest := after.dropWhile isSeparator
      if byteLength rest = byteLength text - i - byteLength word then none
      else number? (rest.takeWhile Number.isDigit)

section Numbers

variable {word text after : List Char} {p : Char} {ps : List Char}

theorem isSeparator_toLower (c : Char) : isSeparator c.toLower = isSeparator c := by
  apply Text.apply_toLower
  intro d low high
  have other : d ≠ ':' := by
    rintro rfl
    exact absurd low (by decide)
  simp only [isSeparator, Text.isBlank, Bool.or_eq_false_iff, Bool.and_eq_false_iff, decide_eq_false_iff_not]
  exact ⟨other, by omega⟩

theorem isDigit_toLower (c : Char) : Number.isDigit c.toLower = Number.isDigit c := by
  apply Text.apply_toLower
  intro d low high
  rw [Bool.eq_false_iff]
  intro digit
  have bounds := Text.isDigit_iff.mp digit
  omega

theorem toLower_of_isDigit {c : Char} (digit : Number.isDigit c = true) : c.toLower = c := by
  have bounds := Text.isDigit_iff.mp digit
  rcases Text.toLower_cases c with same | ⟨low, -, -⟩
  · exact same
  · omega

theorem leadingNumber_map_toLower (after : List Char) :
    leadingNumber (after.map Char.toLower) = leadingNumber after := by
  have separators : isSeparator ∘ Char.toLower = isSeparator := funext isSeparator_toLower
  have digits : Number.isDigit ∘ Char.toLower = Number.isDigit := funext isDigit_toLower
  have same (cs : List Char) : (cs.takeWhile Number.isDigit).map Char.toLower = cs.takeWhile Number.isDigit := by
    conv_rhs => rw [← List.map_id (cs.takeWhile Number.isDigit)]
    apply List.map_congr_left
    intro c digit
    exact toLower_of_isDigit (List.all_eq_true.mp List.all_takeWhile c digit)
  rw [leadingNumber, leadingNumber, List.dropWhile_map, separators, List.takeWhile_map, digits, same, List.length_map,
    List.length_map]

/-- A place in the copy in small letters is one in the text. -/
theorem behind?_of_sees {i : Nat} {after' : List Char}
    (sees : Text.Sees (fun _ after => after) word (text.map Char.toLower) i after') :
    ∃ after, behind? text (i + byteLength word) = some after ∧ after.map Char.toLower = after' ∧
      byteLength text = i + byteLength word + byteLength after := by
  rcases sees with ⟨before', after', whole, rfl, rfl⟩
  rcases List.map_eq_append_iff.mp whole with ⟨before, rest, rfl, rfl, middle⟩
  rcases List.map_eq_append_iff.mp middle with ⟨found, after, rfl, rfl, rfl⟩
  have bytesBefore : byteLength (before.map Char.toLower) + byteLength (found.map Char.toLower) =
      byteLength (before ++ found) := by
    rw [Text.byteLength_map_toLower, Text.byteLength_map_toLower, Text.byteLength_append]
  rw [bytesBefore, ← List.append_assoc]
  exact ⟨after, Text.behind?_append _ after, rfl, Text.byteLength_append _ after⟩

/-- No cut fails in the search for a number. -/
theorem numberAfter?_eq (p : Char) (ps : List Char) (alone : p ∉ ps) (text : List Char) :
    numberAfter? (p :: ps) text = some (numberAfter (p :: ps) text) := by
  apply Text.findSomeM?_of_forall₂ _ (Text.occurrences_afterEach alone (List.nil_append _).symm (by simp))
  intro i after' sees
  obtain ⟨after, cut, rfl, whole⟩ := behind?_of_sees sees
  have ends := Text.byteLength_eq_iff_of_suffix (List.dropWhile_suffix isSeparator (l := after))
  have left : byteLength text - i - byteLength (p :: ps) = byteLength after := by omega
  rw [cut, Option.map_some, left]
  simp only [ends]
  exact congrArg some (leadingNumber_map_toLower after).symm

end Numbers

/-! ### Lines in a stack -/

/-- The number of digits from the byte `i` on. -/
def digitsAt (bytes : List Char) (i : Nat) : Nat := ((bytes.drop i).takeWhile Number.isDigit).length

/-- `stackLine` from the byte `i` on. -/
def stackLine? (entry : List Char) (i : Nat) : Option (Option Nat) :=
  if i < byteLength entry then
    let stop := i + 1 + digitsAt (bytes entry) (i + 1)
    if (bytes entry)[i]? = some ':' ∧ 0 < digitsAt (bytes entry) (i + 1) ∧ (bytes entry)[stop]? = some ':' ∧
        0 < digitsAt (bytes entry) (stop + 1) then
      (cut? entry (i + 1) stop).map number?
    else stackLine? entry (i + 1)
  else some none
termination_by byteLength entry - i

section Stacks

variable {entry before rest : List Char} {c : Char} {i : Nat}

theorem stackLine?_pass {bs more : List Char} (ahead : (bytes entry).drop i = bs ++ more)
    (other : ∀ b ∈ bs, b ≠ ':') : stackLine? entry i = stackLine? entry (i + bs.length) := by
  induction bs generalizing i with
  | nil => rfl
  | cons b bs ih =>
    rw [List.forall_mem_cons] at other
    have here : (bytes entry)[i]? = some b := by
      rw [← List.head?_drop, ahead]
      rfl
    have inside : i < byteLength entry := by
      rw [← Text.length_bytes]
      exact (List.getElem?_eq_some_iff.mp here).1
    have next : (bytes entry).drop (i + 1) = bs ++ more := by
      rw [← List.tail_drop, ahead]
      rfl
    rw [stackLine?, if_pos inside, here, if_neg (by simp [other.1]), ih next other.2,
      List.length_cons, Nat.add_right_comm, Nat.add_assoc]

theorem digitsAt_append (before rest : List Char) :
    digitsAt (bytes (before ++ rest)) (byteLength before) = (rest.takeWhile Number.isDigit).length := by
  rw [digitsAt, Text.drop_bytes, Text.takeWhile_bytes Text.onlyAscii_isDigit]

theorem stackLine_of_ne (other : c ≠ ':') : stackLine (c :: rest) = stackLine rest := by
  rw [stackLine]
  split
  case h_1 => rw [if_neg fun colon => other colon.1]
  case h_2 => rfl

theorem getElem?_bytes_append (ascii : c.toNat < 128) (before rest : List Char) :
    (bytes (before ++ rest))[byteLength before]? = some c ↔ rest.head? = some c := by
  rw [← List.head?_drop, Text.drop_bytes, Text.head?_bytes ascii]

/-- Digits up to a byte are digits up to a character. -/
theorem stackLine?_colon (before rest : List Char)
    (next : stackLine? (before ++ ':' :: rest) (byteLength before + 1) = some (stackLine rest)) :
    stackLine? (before ++ ':' :: rest) (byteLength before) = some (stackLine (':' :: rest)) := by
  obtain ⟨line, lineIs⟩ : ∃ line, rest.takeWhile Number.isDigit = line := ⟨_, rfl⟩
  obtain ⟨tail, tailIs⟩ : ∃ tail, rest.dropWhile Number.isDigit = tail := ⟨_, rfl⟩
  have split : rest = line ++ tail := by rw [← lineIs, ← tailIs, List.takeWhile_append_dropWhile]
  have bytesOfLine : byteLength line = line.length := Text.byteLength_of_ascii fun c digit =>
    Text.onlyAscii_isDigit c (List.all_eq_true.mp List.all_takeWhile c (lineIs ▸ digit))
  have start : byteLength (before ++ [':']) = byteLength before + 1 := Text.byteLength_append _ _
  have stop : byteLength before + 1 + line.length = byteLength ((before ++ [':']) ++ line) := by
    rw [Text.byteLength_append, start, bytesOfLine]
  have toTail : before ++ ':' :: rest = ((before ++ [':']) ++ line) ++ tail := by simp [split]
  have here : (bytes (before ++ ':' :: rest))[byteLength before]? = some ':' :=
    (getElem?_bytes_append (by decide) before _).mpr rfl
  have digits : digitsAt (bytes (before ++ ':' :: rest)) (byteLength before + 1) = line.length := by
    have := digitsAt_append (before ++ [':']) rest
    rwa [start, lineIs, List.append_assoc] at this
  have inside : byteLength before < byteLength (before ++ ':' :: rest) := by
    have size := Text.byteSize_pos ':'
    rw [Text.byteLength_append, Text.byteLength_cons]
    omega
  have colon : (bytes (before ++ ':' :: rest))[byteLength before + 1 + line.length]? = some ':' ↔
      tail.head? = some ':' := by
    rw [stop, toTail]
    exact getElem?_bytes_append (by decide) _ tail
  rw [stackLine?, if_pos inside, here, digits, next, stackLine, lineIs, tailIs]
  simp only [colon, true_and]
  cases tail with
  | nil => simp
  | cons e tail =>
    by_cases same : e = ':'
    · subst same
      have digitsBehind : digitsAt (bytes (before ++ ':' :: rest)) (byteLength before + 1 + line.length + 1) =
          (tail.takeWhile Number.isDigit).length := by
        have := digitsAt_append (((before ++ [':']) ++ line) ++ [':']) tail
        rw [Text.byteLength_append, ← stop, List.append_assoc, List.singleton_append, ← toTail] at this
        exact this
      have cut : cut? (before ++ ':' :: rest) (byteLength before + 1) (byteLength before + 1 + line.length) =
          some line := by
        have := Text.cut?_append (before ++ [':']) line (':' :: tail)
        rwa [start, bytesOfLine, ← List.append_assoc, ← toTail] at this
      rw [digitsBehind, cut]
      cases tail with
      | nil => simp
      | cons d tail =>
        by_cases empty : line = []
        · simp [empty]
        · cases digit : Number.isDigit d <;> simp [digit, List.length_pos_iff, empty]
    · simp [same]

/-- Between two characters, a stack is read as its characters are. -/
theorem stackLine?_eq (before rest : List Char) :
    stackLine? (before ++ rest) (byteLength before) = some (stackLine rest) := by
  induction rest generalizing before with
  | nil =>
    rw [stackLine?, List.append_nil, if_neg (Nat.lt_irrefl _)]
    rfl
  | cons c rest ih =>
    have next : stackLine? (before ++ c :: rest) (byteLength before + byteSize c) = some (stackLine rest) := by
      have := ih (before ++ [c])
      rwa [List.append_assoc, List.singleton_append, Text.byteLength_append] at this
    by_cases colon : c = ':'
    · subst colon
      exact stackLine?_colon before rest next
    · have other : ∀ b ∈ Text.charBytes c, b ≠ ':' := by
        intro b part
        by_cases ascii : c.toNat < 128
        · rw [Text.charBytes_of_ascii ascii, List.mem_singleton] at part
          rwa [part]
        · rintro rfl
          exact absurd (Text.le_of_mem_charBytes ascii part) (by decide)
      rw [stackLine?_pass (Text.drop_bytes before (c :: rest)) other, Text.length_charBytes, next,
        stackLine_of_ne colon]

end Stacks

/-! ### Names in a message -/

/-- What stands between the byte `start` and the next backquote. -/
def quotedFrom? (message : List Char) (start : Nat) : Option (Option (List Char)) := do
  let rest ← behind? message start
  (find? ['`'] rest).elim (some none) fun stop => (upTo? rest stop).map some

/-- `undefinedName`, with failure where a cut fails. -/
def undefinedName? (message : List Char) : Option (Option (List Char)) :=
  let variableMark := "undefined variable `".toList
  let functionMark := "undefined function `".toList
  match find? variableMark message, find? functionMark message with
  | some i, _ => quotedFrom? message (i + byteLength variableMark)
  | none, some i => quotedFrom? message (i + byteLength functionMark)
  | none, none =>
    match find? " is not defined".toList message with
    | none => some none
    | some stop => do
      let head := Text.dropEndWhile (· = '\'') (← upTo? message stop)
      let name ← behind? head (((findLast? (!Text.isWordChar ·) head).map (· + 1)).getD 0)
      pure (if name = [] then none else some name)

section Names

variable {message piece before after head : List Char}

theorem quotedFrom?_eq (found : Text.splitOnce piece message = some (before, after)) :
    quotedFrom? message (byteLength before + byteLength piece) =
      some ((Text.splitOnce ['`'] after).map (·.1)) := by
  obtain ⟨rfl, -⟩ := Text.splitOnce_eq_some_iff.mp found
  rw [quotedFrom?, ← Text.byteLength_append, ← List.append_assoc, Text.behind?_append]
  cases closed : Text.splitOnce ['`'] after with
  | none => simp [find?, closed]
  | some parts =>
    obtain ⟨name, rest⟩ := parts
    obtain ⟨rfl, -⟩ := Text.splitOnce_eq_some_iff.mp closed
    rw [Option.bind_eq_bind, Option.bind_some, Text.find?_eq closed, Option.elim_some, Text.upTo?_append]
    rfl

/-- The last word is cut out behind the character in front of it, if that has one byte. -/
theorem behind?_findLast? (backwards : List Char) :
    behind? backwards.reverse (((findLast? (!Text.isWordChar ·) backwards.reverse).map (· + 1)).getD 0) =
      if (backwards.dropWhile Text.isWordChar).head?.all (byteSize · = 1) then
        some (backwards.takeWhile Text.isWordChar).reverse
      else none := by
  have whole := List.takeWhile_append_dropWhile (p := Text.isWordChar) (l := backwards)
  simp only [findLast?, List.reverse_reverse, Bool.not_not]
  cases front : backwards.dropWhile Text.isWordChar with
  | nil =>
    rw [front, List.append_nil] at whole
    simp [behind?, splitAt?, whole]
  | cons c rest =>
    have text : backwards.reverse = rest.reverse ++ c :: (backwards.takeWhile Text.isWordChar).reverse := by
      conv_lhs => rw [← whole, front]
      simp
    simp only [Option.map_some, Option.getD_some, List.head?_cons, Option.all_some, decide_eq_true_eq]
    rw [text, ← Text.byteLength_reverse]
    by_cases narrow : byteSize c = 1
    · have cut := Text.behind?_append (rest.reverse ++ [c]) (backwards.takeWhile Text.isWordChar).reverse
      rw [List.append_assoc, Text.byteLength_append, Text.byteLength_cons, narrow] at cut
      rw [if_pos narrow]
      exact cut
    · rw [if_neg narrow, Text.behind?_inside narrow]

/-- The only cut that can fail is the one in front of a name. -/
theorem undefinedName?_eq (message : List Char) : undefinedName? message = (undefinedName message).toOption := by
  rw [undefinedName?, undefinedName]
  cases quotedVariable : Text.splitOnce "undefined variable `".toList message with
  | some parts =>
    simp only [find?, quotedVariable, Option.map_some, quotedFrom?_eq quotedVariable]
    rfl
  | none =>
    cases quotedFunction : Text.splitOnce "undefined function `".toList message with
    | some parts =>
      simp only [find?, quotedVariable, Option.map_none, quotedFunction, Option.map_some,
        quotedFrom?_eq quotedFunction]
      rfl
    | none =>
      cases bare : Text.splitOnce " is not defined".toList message with
      | none =>
        simp only [find?, quotedVariable, quotedFunction, bare, Option.map_none]
        rfl
      | some parts =>
        obtain ⟨before, after⟩ := parts
        have cut : upTo? message (byteLength before) = some before := by
          rw [(Text.splitOnce_eq_some_iff.mp bare).1]
          exact Text.upTo?_append before _
        simp only [find?, quotedVariable, quotedFunction, bare, Option.map_none, Option.map_some, cut,
          Option.bind_eq_bind, Option.bind_some, Text.dropEndWhile, behind?_findLast?]
        cases ((before.reverse.dropWhile (· = '\'')).dropWhile Text.isWordChar).head? with
        | none => simp [Except.toOption]
        | some c => by_cases narrow : byteSize c = 1 <;> simp [narrow, Except.toOption]

end Names

/-! ### Places in the source -/

/-- The last place up to the byte `i` that is between two characters. -/
def floorBoundary (cs : List Char) : Nat → Nat
  | 0 => 0
  | i + 1 => if (splitAt? (i + 1) cs).isSome then i + 1 else floorBoundary cs i

/-- `lineOfPosition`, with the source cut between two characters. -/
def lineOfPosition? (source : List Char) (i : Nat) : Option Nat :=
  (upTo? source (floorBoundary source i)).map (·.count '\n' + 1)

/-- `containsWord`, with a look around each occurrence. -/
def containsWord? (line word : List Char) : Option Bool :=
  (occurrences word 0 0 line).anyM fun i => do
    let before ← upTo? line i
    let after ← behind? line (i + byteLength word)
    pure (!(before.getLast?.any Text.isWordChar) && !(after.head?.any Text.isWordChar))

/-- `codePart`, cut at the first of the two marks of comments. -/
def codePart? (line : List Char) : Option (List Char) :=
  (([find? ['/', '/'] line, find? ['-', '-'] line].filterMap id).min?).elim (some line) (upTo? line)

section Places

variable {line word cs : List Char} {c : Char} {i : Nat}

theorem takeBytes_append {before after : List Char} (fits : byteLength before ≤ i)
    (full : ∀ c ∈ after.head?, i < byteLength before + byteSize c) : takeBytes i (before ++ after) = before := by
  induction before generalizing i with
  | nil =>
    cases after with
    | nil => rfl
    | cons c after =>
      have wide := full c rfl
      rw [Text.byteLength_nil, Nat.zero_add] at wide
      rw [List.nil_append, takeBytes, if_neg (Nat.not_le_of_lt wide)]
  | cons c before ih =>
    rw [Text.byteLength_cons] at fits full
    rw [List.cons_append, takeBytes, if_pos (by omega), ih (by omega)]
    intro d next
    have := full d next
    omega

/-- What fits into a number of bytes, and the character behind it that does not. -/
theorem exists_takeBytes (i : Nat) (cs : List Char) : ∃ after, cs = takeBytes i cs ++ after ∧
    byteLength (takeBytes i cs) ≤ i ∧ ∀ c ∈ after.head?, i < byteLength (takeBytes i cs) + byteSize c := by
  fun_induction takeBytes i cs with
  | case1 i => exact ⟨[], rfl, Nat.zero_le i, by simp⟩
  | case2 i c cs fits ih =>
    obtain ⟨after, whole, small, full⟩ := ih
    rw [Text.byteLength_cons]
    refine ⟨after, congrArg (c :: ·) whole, by omega, ?_⟩
    intro d next
    have := full d next
    omega
  | case3 i c cs wide =>
    refine ⟨c :: cs, rfl, Nat.zero_le i, ?_⟩
    rintro d ⟨⟩
    rw [Text.byteLength_nil]
    omega

/-- The longest start of a text that fits ends at the last boundary. -/
theorem floorBoundary_eq (cs : List Char) (i : Nat) : floorBoundary cs i = byteLength (takeBytes i cs) := by
  induction i with
  | zero =>
    obtain ⟨after, -, none, -⟩ := exists_takeBytes 0 cs
    exact (Nat.le_zero.mp none).symm
  | succ i ih =>
    obtain ⟨after, whole, fits, full⟩ := exists_takeBytes (i + 1) cs
    rw [floorBoundary]
    by_cases exact : byteLength (takeBytes (i + 1) cs) = i + 1
    · have cut := Text.splitAt?_append (takeBytes (i + 1) cs) after
      rw [exact, ← whole] at cut
      rw [cut, Option.isSome_some, if_pos rfl, exact]
    · have inside : splitAt? (i + 1) cs = none := by
        rw [Option.eq_none_iff_forall_ne_some]
        rintro ⟨left, right⟩ cut
        obtain ⟨parts, size⟩ := Text.splitAt?_eq_some_iff.mp cut
        apply exact
        rw [parts, takeBytes_append (Nat.le_of_eq size), size]
        intro c _
        have := Text.byteSize_pos c
        omega
      have same : takeBytes i cs = takeBytes (i + 1) cs := by
        conv_lhs => rw [whole]
        apply takeBytes_append (by omega)
        intro c next
        have := full c next
        omega
      rw [inside, Option.isSome_none, if_neg Bool.false_ne_true, ih, same]

theorem lineOfPosition?_eq (source : List Char) (i : Nat) :
    lineOfPosition? source i = some (lineOfPosition source i) := by
  obtain ⟨after, whole, -, -⟩ := exists_takeBytes i source
  have cut := Text.upTo?_append (takeBytes i source) after
  rw [← whole] at cut
  rw [lineOfPosition?, floorBoundary_eq, cut]
  rfl

theorem containsWord?_eq (line word : List Char) : containsWord? line word = some (containsWord line word) := by
  apply Text.anyM_of_forall₂ _ (Text.occurrences_neighbours (List.nil_append line).symm)
  rintro i seen ⟨before, after, rfl, rfl, rfl⟩
  rw [Text.upTo?_append, ← Text.byteLength_append, ← List.append_assoc, Text.behind?_append]
  rfl

theorem find?_cons {piece : List Char} (other : ¬piece <+: c :: cs) :
    find? piece (c :: cs) = (find? piece cs).map (byteSize c + ·) := by
  rw [find?, Text.splitOnce, Text.dropPiece?_eq_none_iff.mpr other, find?, Option.map_map, Option.map_map]
  rfl

theorem upTo?_cons (c : Char) (cs : List Char) (i : Nat) :
    upTo? (c :: cs) (byteSize c + i) = (upTo? cs i).map (c :: ·) := by
  obtain ⟨n, size⟩ := Nat.exists_eq_succ_of_ne_zero (Nat.ne_of_gt (Text.byteSize_pos c))
  rw [upTo?, upTo?, size, Nat.succ_add, splitAt?, if_pos (by omega), size]
  have rest : n + i + 1 - n.succ = i := by omega
  rw [rest, Option.map_map, Option.map_map]
  rfl

theorem min?_filterMap_map_add (n : Nat) (i j : Option Nat) :
    ([i.map (n + ·), j.map (n + ·)].filterMap id).min? = (([i, j].filterMap id).min?).map (n + ·) := by
  cases i <;> cases j <;> simp [List.min?_cons, Nat.add_min_add_left]

/-- A comment is never cut off inside a character. -/
theorem codePart?_eq (line : List Char) : codePart? line = some (codePart line) := by
  fun_induction codePart line with
  | case1 rest =>
    have found : find? ['/', '/'] ('/' :: '/' :: rest) = some 0 := by simp [find?, Text.splitOnce, Text.dropPiece?]
    rw [codePart?, found]
    cases find? ['-', '-'] ('/' :: '/' :: rest) <;> simp [List.min?_cons, upTo?, splitAt?]
  | case2 rest =>
    have found : find? ['-', '-'] ('-' :: '-' :: rest) = some 0 := by simp [find?, Text.splitOnce, Text.dropPiece?]
    rw [codePart?, found]
    cases find? ['/', '/'] ('-' :: '-' :: rest) <;> simp [List.min?_cons, upTo?, splitAt?]
  | case3 c rest notSlashes notDashes ih =>
    have slashes : ¬['/', '/'] <+: c :: rest := by
      rintro ⟨more, rfl, rfl⟩
      exact notSlashes more rfl rfl
    have dashes : ¬['-', '-'] <+: c :: rest := by
      rintro ⟨more, rfl, rfl⟩
      exact notDashes more rfl rfl
    rw [codePart?, find?_cons slashes, find?_cons dashes, min?_filterMap_map_add]
    rw [codePart?] at ih
    cases first : ([find? ['/', '/'] rest, find? ['-', '-'] rest].filterMap id).min? with
    | none =>
      rw [first, Option.elim_none, Option.some.injEq] at ih
      rw [← ih]
      rfl
    | some i =>
      rw [first, Option.elim_some] at ih
      rw [Option.map_some, Option.elim_some, upTo?_cons, ih, Option.map_some]
  | case4 => rfl

end Places

/-! ### The search -/

/-- `firstLine?` for a test that may fail. Lines are counted from `n`. -/
def firstSuch? (test : List Char → Option Bool) (n : Nat) : List (List Char) → Option (Option Nat)
  | [] => some none
  | line :: rest => do if ← test line then some (some n) else firstSuch? test (n + 1) rest

/-- `unbalancedLine`, with comments cut off. -/
def unbalancedLine? (n depth : Nat) : List (List Char) → Option (Option Nat)
  | [] => some none
  | line :: rest => do
    let code ← codePart? line
    (bracketDepth depth code).elim (some (some n)) fun depth => unbalancedLine? (n + 1) depth rest

/-- `scanSource`, with failure where a cut fails. -/
def scanSource? (lines : List (List Char)) : Option (Option Nat) := do
  (← unbalancedLine? 1 0 lines).elim
    (firstSuch? (fun line => (codePart? line).map (isBareFunction ∘ Text.trimStart)) 1 lines) (some ∘ some)

/-- `locate`, with failure where a cut fails. -/
def locate? (message stack source : String) (offset : Nat) : Option (Option Nat) := do
  let text := message.toList
  let code := source.toList
  let lines := Text.splitLines code
  let inSource (n : Nat) : Bool := 1 ≤ n && n ≤ lines.length
  match (← numberAfter? "line".toList text).filter inSource with
  | some n => some (some n)
  | none =>
    match (← numberAfter? "position".toList text).filter (· < byteLength code) with
    | some p => (lineOfPosition? code p).map some
    | none =>
      let marked ← (Text.lines stack.toList).findSomeM? (stackLine? · 0)
      match marked.bind fun n => if offset ≤ n ∧ inSource (n - offset) then some (n - offset) else none with
      | some n => some (some n)
      | none =>
        let named ← (← undefinedName? text).elim (some none) fun name =>
          firstSuch? (fun line => if isComment line then some false else containsWord? line name) 1 lines
        named.elim (scanSource? lines) (some ∘ some)

section Search

variable {test : List Char → Option Bool} {p : List Char → Bool}

theorem firstSuch?_eq (agree : ∀ line, test line = some (p line)) (n : Nat) (lines : List (List Char)) :
    firstSuch? test n lines = some ((lines.findIdx? p).map (· + n)) := by
  induction lines generalizing n with
  | nil => rfl
  | cons line rest ih =>
    rw [firstSuch?, agree, List.findIdx?_cons]
    cases p line with
    | true => simp
    | false =>
      have shift : (· + n) ∘ (· + 1) = ((· + (n + 1)) : Nat → Nat) := funext fun i => by
        simp only [Function.comp_apply]
        omega
      simp [ih, shift]

theorem unbalancedLine?_eq (n depth : Nat) (lines : List (List Char)) :
    unbalancedLine? n depth lines = some (unbalancedLine n depth lines) := by
  induction lines generalizing n depth with
  | nil => rfl
  | cons line rest ih =>
    rw [unbalancedLine?, codePart?_eq, unbalancedLine]
    cases closed : bracketDepth depth (codePart line) with
    | none => simp [closed]
    | some depth => simp [closed, ih]

theorem scanSource?_eq (lines : List (List Char)) : scanSource? lines = some (scanSource lines) := by
  have dangling : firstSuch? (fun line => (codePart? line).map (isBareFunction ∘ Text.trimStart)) 1 lines =
      some (firstLine? isDanglingFunction lines) := firstSuch?_eq (fun line => by rw [codePart?_eq]; rfl) 1 lines
  rw [scanSource?, unbalancedLine?_eq, dangling, scanSource]
  cases unbalancedLine 1 0 lines <;> rfl

/-- The search fails nowhere but where it cannot cut out a name. -/
theorem locate?_eq (message stack source : String) (offset : Nat) :
    locate? message stack source offset = (locate message stack source offset).toOption := by
  have lineNumber : numberAfter? "line".toList message.toList = some (numberAfter "line".toList message.toList) :=
    numberAfter?_eq 'l' "ine".toList (by decide) message.toList
  have position : numberAfter? "position".toList message.toList =
      some (numberAfter "position".toList message.toList) :=
    numberAfter?_eq 'p' "osition".toList (by decide) message.toList
  have marked : (Text.lines stack.toList).findSomeM? (stackLine? · 0) =
      some ((Text.lines stack.toList).findSome? stackLine) := by
    apply Text.findSomeM?_of_forall₂ _ (List.forall₂_eq_eq_eq ▸ rfl)
    rintro entry _ rfl
    exact stackLine?_eq [] entry
  have named (name : List Char) :
      firstSuch? (fun line => if isComment line then some false else containsWord? line name) 1
        (Text.splitLines source.toList) =
      some (firstLine? (fun line => !isComment line && containsWord line name) (Text.splitLines source.toList)) :=
    firstSuch?_eq (fun line => by cases isComment line <;> simp [containsWord?_eq]) 1 _
  simp only [locate?, lineNumber, position, marked, named, locate, lineOfPosition?_eq, scanSource?_eq,
    undefinedName?_eq, Option.bind_eq_bind, Option.bind_some]
  cases (numberAfter "line".toList message.toList).filter _ with
  | some n => rfl
  | none =>
    cases (numberAfter "position".toList message.toList).filter _ with
    | some p => rfl
    | none =>
      cases ((Text.lines stack.toList).findSome? stackLine).bind _ with
      | some n => rfl
      | none =>
        cases undefinedName message.toList with
        | error => rfl
        | ok found =>
          cases found with
          | none => rfl
          | some name =>
            change Option.elim _ _ _ = some (Option.or (firstLine? _ _) _)
            cases firstLine? _ (Text.splitLines source.toList) <;> rfl

end Search

end Sketch.ErrorLine
