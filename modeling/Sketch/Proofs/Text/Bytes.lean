import Sketch.ErrorLine
import Sketch.Token.Lexer

/-!
Texts as bytes. A place that is counted in bytes may lie inside a character, and a text cannot be cut there. All bytes
of a character that has several are above those of ASCII.
-/

namespace Sketch.Text

open ErrorLine (byteSize byteLength)
open Lexer (leadByteChar isNameStart isNamePart)

/-! ### Sizes -/

section Sizes

variable {c : Char} {cs before after : List Char}

theorem byteSize_pos (c : Char) : 0 < byteSize c := Char.utf8Size_pos c

theorem byteSize_eq_one_iff : byteSize c = 1 ↔ c.toNat < 128 := by
  rw [byteSize, Char.utf8Size_eq_one_iff, UInt32.le_iff_toNat_le]
  exact Nat.lt_succ_iff.symm

@[simp] theorem byteLength_nil : byteLength [] = 0 := rfl

@[simp] theorem byteLength_cons (c : Char) (cs : List Char) : byteLength (c :: cs) = byteSize c + byteLength cs := rfl

@[simp] theorem byteLength_append (before after : List Char) :
    byteLength (before ++ after) = byteLength before + byteLength after := by
  induction before with
  | nil => simp
  | cons c before ih =>
    rw [List.cons_append, byteLength_cons, byteLength_cons, ih, Nat.add_assoc]

theorem byteLength_reverse (cs : List Char) : byteLength cs.reverse = byteLength cs := by
  induction cs with
  | nil => rfl
  | cons c cs ih =>
    rw [List.reverse_cons, byteLength_append, ih, byteLength_cons, byteLength_cons, byteLength_nil]
    omega

theorem length_le_byteLength (cs : List Char) : cs.length ≤ byteLength cs := by
  induction cs with
  | nil => exact Nat.le_refl 0
  | cons c cs ih =>
    have more := byteSize_pos c
    rw [List.length_cons, byteLength_cons]
    omega

/-- A text of ASCII has as many bytes as characters. -/
theorem byteLength_of_ascii (ascii : ∀ c ∈ cs, c.toNat < 128) : byteLength cs = cs.length := by
  induction cs with
  | nil => rfl
  | cons c cs ih =>
    rw [List.forall_mem_cons] at ascii
    rw [byteLength_cons, byteSize_eq_one_iff.mpr ascii.1, ih ascii.2, List.length_cons, Nat.add_comm]

/-- The end of a text has as many bytes as the whole only if it is the whole. -/
theorem byteLength_eq_iff_of_suffix (ends : after <:+ cs) :
    byteLength after = byteLength cs ↔ after.length = cs.length := by
  obtain ⟨before, rfl⟩ := ends
  rw [byteLength_append, List.length_append]
  cases before with
  | nil => simp
  | cons c before =>
    have more := byteSize_pos c
    rw [byteLength_cons, List.length_cons]
    omega

end Sizes

/-! ### Bytes -/

/-- The bytes of a character in UTF-8, each as the character of its number. -/
def charBytes (c : Char) : List Char := (String.utf8EncodeChar c).map Char.ofUInt8

def bytes (cs : List Char) : List Char := cs.flatMap charBytes

/-- Whether a byte goes on with a character that has several. -/
def isContinuation (b : Char) : Bool := 0x80 ≤ b.toNat && b.toNat < 0xc0

/-- Something that holds only of characters of ASCII. -/
def OnlyAscii (p : Char → Bool) : Prop := ∀ c, p c = true → c.toNat < 128

section Bytes

variable {c : Char} {cs before after : List Char} {p : Char → Bool}

theorem charBytes_of_ascii (ascii : c.toNat < 128) : charBytes c = [c] := by
  have small : c.val.toNat ≤ 127 := Nat.le_of_lt_succ ascii
  rw [charBytes, String.utf8EncodeChar]
  simp only [small, if_true, List.map_cons, List.map_nil, List.cons.injEq, and_true]
  apply Char.ext
  apply UInt32.toNat_inj.mp
  change c.val.toNat % 256 = c.val.toNat
  omega

theorem toNat_ofNat {n : Nat} (small : n < 256) : (Char.ofNat n).toNat = n := by
  rw [Char.ofNat, dif_pos (.inl (by omega))]
  rfl

theorem ofUInt8_ofNat {n : Nat} (small : n < 256) : Char.ofUInt8 (UInt8.ofNat n) = Char.ofNat n := by
  apply Char.toNat_inj.mp
  rw [toNat_ofNat small]
  exact Nat.mod_eq_of_lt small

/-- A character has a first byte, which in ASCII is itself, and others that go on with it. -/
theorem charBytes_eq (c : Char) : ∃ more, charBytes c = leadByteChar c :: more ∧
    (∀ b ∈ more, isContinuation b = true) ∧
      if c.toNat < 128 then leadByteChar c = c else 0xc0 ≤ (leadByteChar c).toNat := by
  have valid : c.toNat < 0x110000 := by
    rcases c.valid with low | high
    · exact Nat.lt_trans low (by decide)
    · exact high.2
  have goesOn (n : Nat) : isContinuation (Char.ofUInt8 (UInt8.ofNat (n % 64 + 128))) = true := by
    rw [ofUInt8_ofNat (by omega), isContinuation, toNat_ofNat (by omega), Bool.and_eq_true, decide_eq_true_eq,
      decide_eq_true_eq]
    omega
  have wide (ns : List Nat) {n : Nat} (high : 0xc0 ≤ n) (small : n < 256) :
      ∃ more, (UInt8.ofNat n :: ns.map fun k => UInt8.ofNat (k % 64 + 128)).map Char.ofUInt8 = Char.ofNat n :: more ∧
        (∀ b ∈ more, isContinuation b = true) ∧ 0xc0 ≤ (Char.ofNat n).toNat := by
    refine ⟨_, congrArg (· :: _) (ofUInt8_ofNat small), ?_, by rwa [toNat_ofNat small]⟩
    simpa only [List.forall_mem_map] using fun k _ => goesOn k
  have number : c.val.toNat = c.toNat := rfl
  have one : (c.toNat ≤ 127) = (c.toNat < 0x80) := propext (by omega)
  have two : (c.toNat ≤ 2047) = (c.toNat < 0x800) := propext (by omega)
  have three : (c.toNat ≤ 65535) = (c.toNat < 0x10000) := propext (by omega)
  simp only [charBytes, String.utf8EncodeChar, leadByteChar, number, one, two, three]
  split
  case isTrue small =>
    exact ⟨[], congrArg (· :: []) (ofUInt8_ofNat (by omega)), List.forall_mem_nil _, Char.ofNat_toNat c⟩
  case isFalse =>
    split
    case isTrue small =>
      have lead : c.toNat / 64 % 32 + 192 = 0xc0 + c.toNat / 0x40 := by omega
      rw [lead]
      exact wide [c.toNat] (by omega) (by omega)
    case isFalse =>
      split
      case isTrue small =>
        have lead : c.toNat / 4096 % 16 + 224 = 0xe0 + c.toNat / 0x1000 := by omega
        rw [lead]
        exact wide [c.toNat / 64, c.toNat] (by omega) (by omega)
      case isFalse =>
        have lead : c.toNat / 262144 % 8 + 240 = 0xf0 + c.toNat / 0x40000 := by omega
        rw [lead]
        exact wide [c.toNat / 4096, c.toNat / 64, c.toNat] (by omega) (by omega)

theorem isContinuation_leadByteChar (c : Char) : isContinuation (leadByteChar c) = false := by
  obtain ⟨-, -, -, lead⟩ := charBytes_eq c
  rw [isContinuation, Bool.and_eq_false_iff, decide_eq_false_iff_not, decide_eq_false_iff_not]
  split at lead
  · rw [lead]
    omega
  · omega

/-- No byte of a longer character is one of ASCII. -/
theorem le_of_mem_charBytes (wide : ¬c.toNat < 128) {b : Char} (part : b ∈ charBytes c) : 128 ≤ b.toNat := by
  obtain ⟨more, whole, inside, lead⟩ := charBytes_eq c
  rw [if_neg wide] at lead
  rw [whole, List.mem_cons] at part
  rcases part with rfl | part
  · exact Nat.le_trans (by decide) lead
  · have goesOn := inside b part
    rw [isContinuation, Bool.and_eq_true, decide_eq_true_eq] at goesOn
    exact goesOn.1

theorem length_charBytes (c : Char) : (charBytes c).length = byteSize c := by
  rw [charBytes, List.length_map, String.length_utf8EncodeChar, byteSize]

@[simp] theorem bytes_cons (c : Char) (cs : List Char) : bytes (c :: cs) = charBytes c ++ bytes cs := rfl

theorem bytes_append (before after : List Char) : bytes (before ++ after) = bytes before ++ bytes after :=
  List.flatMap_append

theorem length_bytes (cs : List Char) : (bytes cs).length = byteLength cs := by
  induction cs with
  | nil => rfl
  | cons c cs ih =>
    rw [bytes_cons, List.length_append, length_charBytes, ih, byteLength_cons]

theorem drop_bytes (before after : List Char) : (bytes (before ++ after)).drop (byteLength before) = bytes after := by
  rw [bytes_append, ← length_bytes, List.drop_left]

theorem bytes_cons_of_ascii (ascii : c.toNat < 128) : bytes (c :: cs) = c :: bytes cs := by
  rw [bytes_cons, charBytes_of_ascii ascii, List.singleton_append]

/-- What holds only of ASCII holds of no byte of a longer character. -/
theorem OnlyAscii.eq_false (only : OnlyAscii p) (wide : ¬c.toNat < 128) {b : Char} (mem : b ∈ charBytes c) :
    p b = false := by
  rw [Bool.eq_false_iff]
  intro holds
  have small := only b holds
  have large := le_of_mem_charBytes wide mem
  omega

theorem isDigit_iff : Number.isDigit c = true ↔ 48 ≤ c.toNat ∧ c.toNat ≤ 57 := by
  rw [Number.isDigit, Bool.and_eq_true, decide_eq_true_eq, decide_eq_true_eq]
  exact Iff.rfl

theorem onlyAscii_isDigit : OnlyAscii Number.isDigit := by
  intro c digit
  have bounds := isDigit_iff.mp digit
  omega

theorem onlyAscii_isNameStart : OnlyAscii isNameStart := by
  intro c start
  simp only [isNameStart, Bool.or_eq_true, Bool.and_eq_true, decide_eq_true_eq] at start
  rcases start with (⟨-, below⟩ | ⟨-, below⟩) | rfl
  · exact Nat.lt_of_le_of_lt (Char.le_def.mp below) (by decide)
  · exact Nat.lt_of_le_of_lt (Char.le_def.mp below) (by decide)
  · decide

theorem onlyAscii_isNamePart : OnlyAscii isNamePart := by
  intro c part
  rcases Bool.or_eq_true_iff.mp part with start | digit
  · exact onlyAscii_isNameStart c start
  · exact onlyAscii_isDigit c digit

theorem charBytes_ne_nil (c : Char) : charBytes c ≠ [] := by
  intro empty
  have size := length_charBytes c
  rw [empty] at size
  exact Nat.ne_of_lt (byteSize_pos c) size

theorem head?_bytes {d : Char} (ascii : d.toNat < 128) (cs : List Char) :
    (bytes cs).head? = some d ↔ cs.head? = some d := by
  cases cs with
  | nil => rfl
  | cons c cs =>
    by_cases small : c.toNat < 128
    · rw [bytes_cons_of_ascii small]
      rfl
    · obtain ⟨b, more, split⟩ := List.exists_cons_of_ne_nil (charBytes_ne_nil c)
      have above := le_of_mem_charBytes small (split ▸ List.mem_cons_self)
      rw [bytes_cons, split, List.cons_append, List.head?_cons, List.head?_cons, Option.some.injEq,
        Option.some.injEq]
      constructor
      · rintro rfl
        omega
      · rintro rfl
        exact absurd ascii small

theorem bytes_of_ascii (ascii : ∀ c ∈ cs, c.toNat < 128) : bytes cs = cs := by
  induction cs with
  | nil => rfl
  | cons c cs ih =>
    rw [List.forall_mem_cons] at ascii
    rw [bytes_cons_of_ascii ascii.1, ih ascii.2]

/-- What holds of all bytes of a character or of none cuts bytes as it cuts characters. -/
theorem span_bytes (uniform : ∀ c, ¬c.toNat < 128 → ∀ b ∈ charBytes c, p b = p c) (cs : List Char) :
    (bytes cs).takeWhile p = bytes (cs.takeWhile p) ∧ (bytes cs).dropWhile p = bytes (cs.dropWhile p) := by
  induction cs with
  | nil => exact ⟨rfl, rfl⟩
  | cons c cs ih =>
    have each : ∀ b ∈ charBytes c, p b = p c := by
      by_cases ascii : c.toNat < 128
      · simp [charBytes_of_ascii ascii]
      · exact uniform c ascii
    cases holds : p c with
    | true =>
      rw [holds] at each
      rw [bytes_cons, List.takeWhile_append_of_pos each, List.dropWhile_append_of_pos each, ih.1, ih.2,
        List.takeWhile_cons_of_pos holds, List.dropWhile_cons_of_pos holds]
      exact ⟨rfl, rfl⟩
    | false =>
      obtain ⟨more, whole, -⟩ := charBytes_eq c
      have first : ¬p (leadByteChar c) = true := by
        rw [each _ (whole ▸ List.mem_cons_self), holds]
        exact Bool.false_ne_true
      have here : ¬p c = true := by simp [holds]
      rw [bytes_cons, whole, List.cons_append, List.takeWhile_cons_of_neg first, List.dropWhile_cons_of_neg first,
        List.takeWhile_cons_of_neg here, List.dropWhile_cons_of_neg here, bytes_cons, whole]
      exact ⟨rfl, rfl⟩

theorem uniform_of_onlyAscii (only : OnlyAscii p) (c : Char) (wide : ¬c.toNat < 128) (b : Char)
    (part : b ∈ charBytes c) :
    p b = p c := by
  rw [only.eq_false wide part, eq_comm, Bool.eq_false_iff]
  exact fun holds => wide (only c holds)

theorem bytes_takeWhile (only : OnlyAscii p) (cs : List Char) : bytes (cs.takeWhile p) = cs.takeWhile p :=
  bytes_of_ascii fun c mem => only c (List.all_eq_true.mp List.all_takeWhile c mem)

theorem takeWhile_bytes (only : OnlyAscii p) (cs : List Char) : (bytes cs).takeWhile p = cs.takeWhile p := by
  rw [(span_bytes (uniform_of_onlyAscii only) cs).1, bytes_takeWhile only]

end Bytes

/-! ### Cutting at a byte -/

/-- The two parts of a text at a byte, unless that lies inside a character or behind the end. -/
def splitAt? : Nat → List Char → Option (List Char × List Char)
  | 0, cs => some ([], cs)
  | _ + 1, [] => none
  | i + 1, c :: cs =>
    if byteSize c ≤ i + 1 then (splitAt? (i + 1 - byteSize c) cs).map fun (before, after) => (c :: before, after)
    else none

/-- The part of a text in front of a byte. -/
def upTo? (cs : List Char) (i : Nat) : Option (List Char) := (splitAt? i cs).map (·.1)

def behind? (cs : List Char) (i : Nat) : Option (List Char) := (splitAt? i cs).map (·.2)

/-- The part of a text from one byte to another. -/
def cut? (cs : List Char) (i j : Nat) : Option (List Char) :=
  if i ≤ j then (upTo? cs j).bind (behind? · i) else none

section Cuts

variable {c : Char} {cs before after : List Char} {i : Nat}

theorem splitAt?_append (before after : List Char) :
    splitAt? (byteLength before) (before ++ after) = some (before, after) := by
  induction before with
  | nil => simp [splitAt?]
  | cons c before ih =>
    obtain ⟨n, size⟩ := Nat.exists_eq_succ_of_ne_zero (Nat.ne_of_gt (byteSize_pos c))
    have rest : n + byteLength before + 1 - byteSize c = byteLength before := by omega
    rw [byteLength_cons, size, Nat.succ_add, List.cons_append, splitAt?, if_pos (by omega), rest,
      ih]
    rfl

/-- A text can be cut exactly where one of its starts ends. -/
theorem splitAt?_eq_some_iff : splitAt? i cs = some (before, after) ↔ cs = before ++ after ∧ byteLength before = i := by
  constructor
  · intro cut
    fun_induction splitAt? i cs generalizing before with
    | case1 cs =>
      cases cut
      exact ⟨rfl, rfl⟩
    | case2 => cases cut
    | case3 i c cs fits ih =>
      obtain ⟨⟨before', after'⟩, cut', same⟩ := Option.map_eq_some_iff.mp cut
      cases same
      obtain ⟨rfl, size⟩ := ih cut'
      rw [byteLength_cons, size]
      exact ⟨rfl, by omega⟩
    | case4 => cases cut
  · rintro ⟨rfl, rfl⟩
    exact splitAt?_append before after

theorem upTo?_append (before after : List Char) : upTo? (before ++ after) (byteLength before) = some before := by
  rw [upTo?, splitAt?_append]
  rfl

theorem behind?_append (before after : List Char) : behind? (before ++ after) (byteLength before) = some after := by
  rw [behind?, splitAt?_append]
  rfl

theorem cut?_append (before middle after : List Char) :
    cut? (before ++ (middle ++ after)) (byteLength before) (byteLength before + byteLength middle) = some middle := by
  rw [cut?, if_pos (Nat.le_add_right _ _), ← List.append_assoc, ← byteLength_append, upTo?_append]
  exact behind?_append before middle

/-- Behind the first byte of a character that has several, nothing can be cut. -/
theorem behind?_inside (wide : byteSize c ≠ 1) (before after : List Char) :
    behind? (before ++ c :: after) (byteLength before + 1) = none := by
  rw [behind?, Option.map_eq_none_iff, Option.eq_none_iff_forall_ne_some]
  rintro ⟨left, right⟩ cut
  obtain ⟨same, size⟩ := splitAt?_eq_some_iff.mp cut
  have wider := byteSize_pos c
  -- The part on the left ends in front of the character or holds it.
  rcases List.append_eq_append_iff.mp same with ⟨more, rfl, tail⟩ | ⟨more, rfl, -⟩
  · rw [byteLength_append] at size
    cases more with
    | nil =>
      rw [byteLength_nil] at size
      omega
    | cons d more =>
      obtain rfl : c = d := (List.cons.inj tail).1
      rw [byteLength_cons] at size
      omega
  · rw [byteLength_append] at size
    omega

end Cuts

/-! ### Looking for something -/

/-- The byte at which `piece` occurs first. -/
def find? (piece cs : List Char) : Option Nat := (splitOnce piece cs).map fun (before, _) => byteLength before

/-- The byte at which the last character begins of which `p` holds. -/
def findLast? (p : Char → Bool) (cs : List Char) : Option Nat :=
  match cs.reverse.dropWhile (!p ·) with
  | [] => none
  | _ :: before => some (byteLength before)

/-- The bytes at which `piece` occurs, counted from `i`. The search goes on behind an occurrence. -/
def occurrences (piece : List Char) : (i skip : Nat) → List Char → List Nat
  | i, _, [] => if piece.isEmpty then [i] else []
  | i, skip + 1, c :: cs => occurrences piece (i + byteSize c) skip cs
  | i, 0, c :: cs =>
    match dropPiece? piece (c :: cs) with
    | some _ => i :: occurrences piece (i + byteSize c) (piece.length - 1) cs
    | none => occurrences piece (i + byteSize c) 0 cs

section Search

variable {c : Char} {cs before after piece : List Char} {i : Nat}

theorem dropPiece?_eq_some_iff : dropPiece? piece cs = some after ↔ cs = piece ++ after := by
  rw [dropPiece?]
  split
  case isTrue starts =>
    obtain ⟨rest, rfl⟩ := List.isPrefixOf_iff_prefix.mp starts
    rw [List.drop_left, Option.some.injEq, List.append_cancel_left_eq]
  case isFalse other =>
    constructor
    · intro absurd
      cases absurd
    · rintro rfl
      exact absurd (List.isPrefixOf_iff_prefix.mpr (List.prefix_append piece after)) other

theorem dropPiece?_eq_none_iff : dropPiece? piece cs = none ↔ ¬piece <+: cs := by
  rw [Option.eq_none_iff_forall_ne_some]
  constructor
  · rintro never ⟨rest, rfl⟩
    exact never rest (dropPiece?_eq_some_iff.mpr rfl)
  · intro other rest same
    exact other ⟨rest, (dropPiece?_eq_some_iff.mp same).symm⟩

/-- The first occurrence of a piece is one, and none begins in front of it. -/
theorem splitOnce_eq_some_iff : splitOnce piece cs = some (before, after) ↔
    cs = before ++ (piece ++ after) ∧ ∀ earlier later, cs = earlier ++ (piece ++ later) →
      before.length ≤ earlier.length := by
  induction cs generalizing before with
  | nil =>
    rw [splitOnce]
    cases piece with
    | nil => simp [and_comm, eq_comm]
    | cons p ps => simp
  | cons c cs ih =>
    rw [splitOnce]
    cases starts : dropPiece? piece (c :: cs) with
    | some rest =>
      have here := dropPiece?_eq_some_iff.mp starts
      constructor
      · intro same
        cases same
        exact ⟨here, fun earlier later _ => Nat.zero_le _⟩
      · rintro ⟨whole, first⟩
        obtain rfl : before = [] := List.eq_nil_of_length_eq_zero (Nat.le_zero.mp (first [] rest here))
        rw [here, List.nil_append, List.append_cancel_left_eq] at whole
        rw [whole]
    | none =>
      have never := dropPiece?_eq_none_iff.mp starts
      have notHere {rest : List Char} : c :: cs ≠ piece ++ rest := fun same => never ⟨rest, same.symm⟩
      simp only [Option.map_eq_some_iff, Prod.exists, Prod.mk.injEq]
      constructor
      · rintro ⟨before', after', found, rfl, rfl⟩
        obtain ⟨rfl, first⟩ := ih.mp found
        refine ⟨rfl, fun earlier later same => ?_⟩
        cases earlier with
        | nil => exact absurd same notHere
        | cons d earlier => exact Nat.succ_le_succ (first earlier later (List.cons.inj same).2)
      · rintro ⟨whole, first⟩
        cases before with
        | nil => exact absurd whole notHere
        | cons d before =>
          obtain ⟨rfl, rest⟩ := List.cons.inj whole
          refine ⟨before, after, ih.mpr ⟨rest, fun earlier later same => ?_⟩, rfl, rfl⟩
          have later := first (c :: earlier) later (congrArg (c :: ·) same)
          exact Nat.le_of_succ_le_succ later

theorem splitOnce_eq_none_iff : splitOnce piece cs = none ↔ ¬piece <:+: cs := by
  induction cs with
  | nil =>
    rw [splitOnce]
    cases piece <;> simp
  | cons c cs ih =>
    rw [splitOnce, List.infix_cons_iff, not_or, ← ih, ← dropPiece?_eq_none_iff]
    cases dropPiece? piece (c :: cs) <;> simp

theorem find?_eq (whole : splitOnce piece cs = some (before, after)) : find? piece cs = some (byteLength before) := by
  rw [find?, whole]
  rfl

end Search

end Sketch.Text
