import Mathlib.Data.List.TakeWhile
import Sketch.Cipher

/-!
Bytes in base 64 and times in base 36. Each is read back as what was written, and neither uses the signs that hold a
token together.
-/

namespace Sketch

namespace Base64

/-- What an alphabet needs so that its signs can be read back and told from padding. -/
structure Alphabet.Proper (a : Alphabet) : Prop where
  digit?_sign : ∀ d < 64, a.digit? (a.sign d) = some d
  sign_ne_padding : ∀ d < 64, a.sign d ≠ '='

theorem Alphabet.standard_proper : standard.Proper := ⟨by decide, by decide⟩

theorem Alphabet.urlSafe_proper : urlSafe.Proper := ⟨by decide, by decide⟩

theorem digits_lt (bytes : List UInt8) : ∀ d ∈ digits bytes, d < 64 := by
  fun_induction digits bytes with
  | case1 => simp
  | case2 x =>
    have := x.toNat_lt
    simp only [List.forall_mem_cons, List.not_mem_nil, false_implies, implies_true, and_true]
    omega
  | case3 x y =>
    have := x.toNat_lt
    have := y.toNat_lt
    simp only [List.forall_mem_cons, List.not_mem_nil, false_implies, implies_true, and_true]
    omega
  | case4 x y z rest ih =>
    have := x.toNat_lt
    have := y.toNat_lt
    have := z.toNat_lt
    simp only [List.forall_mem_cons]
    refine ⟨by omega, by omega, by omega, by omega, ih⟩

/-- A byte is told by its number. -/
theorem ofNat_eq_of_toNat {n : Nat} {x : UInt8} (same : n = x.toNat) : UInt8.ofNat n = x := by
  rw [same, UInt8.ofNat_toNat]

/-- Three bytes have the bits of four digits. -/
theorem bytes?_digits (bytes : List UInt8) : bytes? (digits bytes) = some bytes := by
  fun_induction digits bytes with
  | case1 => rfl
  | case2 x =>
    have first : UInt8.ofNat (x.toNat / 4 * 4 + x.toNat % 4 * 16 / 16) = x :=
      ofNat_eq_of_toNat (by omega)
    rw [bytes?, first]
  | case3 x y =>
    have := y.toNat_lt
    have first : UInt8.ofNat (x.toNat / 4 * 4 + (x.toNat % 4 * 16 + y.toNat / 16) / 16) = x :=
      ofNat_eq_of_toNat (by omega)
    have second : UInt8.ofNat ((x.toNat % 4 * 16 + y.toNat / 16) % 16 * 16 + y.toNat % 16 * 4 / 4) = y :=
      ofNat_eq_of_toNat (by omega)
    rw [bytes?, first, second]
  | case4 x y z rest ih =>
    have := y.toNat_lt
    have := z.toNat_lt
    have first : UInt8.ofNat (x.toNat / 4 * 4 + (x.toNat % 4 * 16 + y.toNat / 16) / 16) = x :=
      ofNat_eq_of_toNat (by omega)
    have second : UInt8.ofNat ((x.toNat % 4 * 16 + y.toNat / 16) % 16 * 16 +
        (y.toNat % 16 * 4 + z.toNat / 64) / 4) = y :=
      ofNat_eq_of_toNat (by omega)
    have third : UInt8.ofNat ((y.toNat % 16 * 4 + z.toNat / 64) % 4 * 64 + z.toNat % 64) = z :=
      ofNat_eq_of_toNat (by omega)
    rw [bytes?, ih]
    simp only [first, second, third, Option.bind_eq_bind, Option.bind_some, Option.pure_def]

variable {a : Alphabet}

theorem mapM_digit?_sign (proper : a.Proper) {ds : List Nat} (small : ∀ d ∈ ds, d < 64) :
    (ds.map a.sign).mapM a.digit? = some ds := by
  induction ds with
  | nil => rfl
  | cons d ds ih =>
    rw [List.forall_mem_cons] at small
    rw [List.map_cons, List.mapM_cons, proper.digit?_sign d small.1, ih small.2]
    rfl

/-- Padding can be taken off again, since no sign looks like it. -/
theorem unpad_signs (proper : a.Proper) {ds : List Nat} (small : ∀ d ∈ ds, d < 64) (n : Nat) :
    ((ds.map a.sign ++ List.replicate n '=').reverse.dropWhile (· = '=')).reverse = ds.map a.sign := by
  have kept : (ds.map a.sign).reverse.dropWhile (· = '=') = (ds.map a.sign).reverse := by
    rw [List.dropWhile_eq_self_iff]
    intro nonempty
    obtain ⟨d, member, same⟩ := List.mem_map.mp (List.mem_reverse.mp (List.getElem_mem nonempty))
    rw [← same, decide_eq_true_eq]
    exact proper.sign_ne_padding d (small d member)
  rw [List.reverse_append, List.reverse_replicate, List.dropWhile_append_of_pos, kept, List.reverse_reverse]
  intro c member
  rw [List.eq_of_mem_replicate member]
  rfl

/-- Bytes are read back, with padding and without. -/
theorem decode?_encode (proper : a.Proper) (padded : Bool) (bytes : List UInt8) :
    decode? a (encode a padded bytes) = some bytes := by
  have small := digits_lt bytes
  have unpadded : (((encode a padded bytes).reverse.dropWhile (· = '=')).reverse) =
      (digits bytes).map a.sign := by
    cases padded with
    | true => exact unpad_signs proper small _
    | false =>
      have bare := unpad_signs proper small 0
      rw [List.replicate_zero, List.append_nil] at bare
      exact bare
  rw [decode?, unpadded, mapM_digit?_sign proper small]
  exact bytes?_digits bytes

theorem mem_encode {padded : Bool} {bytes : List UInt8} {c : Char} (member : c ∈ encode a padded bytes) :
    c = '=' ∨ ∃ d < 64, c = a.sign d := by
  have sign {c : Char} (member : c ∈ (digits bytes).map a.sign) : ∃ d < 64, c = a.sign d := by
    obtain ⟨d, isDigit, same⟩ := List.mem_map.mp member
    exact ⟨d, digits_lt bytes d isDigit, same.symm⟩
  unfold encode at member
  cases padded with
  | false => exact .inr (sign member)
  | true =>
    rcases List.mem_append.mp member with written | filled
    · exact .inr (sign written)
    · exact .inl (List.eq_of_mem_replicate filled)

end Base64

namespace Base36

theorem digit?_sign : ∀ d < 36, digit? (sign d) = some d := by decide

/-- Reading undoes writing digit by digit, the highest first. -/
theorem readOnto_writeOnto (n : Nat) (signs : List Char) : readOnto 0 (writeOnto n signs) = readOnto n signs := by
  fun_induction writeOnto n signs with
  | case1 n signs small =>
    rw [readOnto, digit?_sign n small]
    simp
  | case2 n signs large ih =>
    rw [ih, readOnto, digit?_sign _ (Nat.mod_lt n (by decide)), Option.bind_eq_bind,
      Option.bind_some, Nat.div_add_mod']

theorem mem_writeOnto {n : Nat} {signs : List Char} {c : Char} (member : c ∈ writeOnto n signs) :
    c ∈ signs ∨ ∃ d < 36, c = sign d := by
  fun_induction writeOnto n signs with
  | case1 n signs small =>
    rcases List.mem_cons.mp member with same | old
    · exact .inr ⟨n, small, same⟩
    · exact .inl old
  | case2 n signs large ih =>
    rcases ih member with old | new
    · rcases List.mem_cons.mp old with same | older
      · exact .inr ⟨n % 36, Nat.mod_lt n (by decide), same⟩
      · exact .inl older
    · exact .inr new

theorem writeOnto_ne_nil (n : Nat) (signs : List Char) : writeOnto n signs ≠ [] := by
  fun_induction writeOnto n signs with
  | case1 n signs small => exact List.cons_ne_nil _ _
  | case2 n signs large ih => exact ih

theorem mem_write {n : Nat} {c : Char} (member : c ∈ write n) : ∃ d < 36, c = sign d :=
  (mem_writeOnto member).resolve_left List.not_mem_nil

/-- The number of a text without a plus sign. -/
def readUnsigned? (signs : List Char) : Option Nat := do
  guard (signs ≠ [])
  let n ← readOnto 0 signs
  guard (n < Nat.pow 2 64)
  return n

theorem read?_of_unsigned {text : List Char} (unsigned : ∀ rest, text ≠ '+' :: rest) :
    read? text = readUnsigned? text := by
  apply congrArg readUnsigned?
  split
  case h_1 rest => exact absurd rfl (unsigned rest)
  case h_2 => rfl

/-- A number of 64 bits is read back. -/
theorem read?_write (n : UInt64) : read? (write n.toNat) = some n.toNat := by
  have unsigned : ∀ rest, write n.toNat ≠ '+' :: rest := by
    intro rest same
    have member : '+' ∈ write n.toNat := by
      rw [same]
      exact List.mem_cons_self
    obtain ⟨d, small, isPlus⟩ := mem_write member
    have noPlus : ∀ d < 36, '+' ≠ sign d := by decide
    exact noPlus d small isPlus
  have nonempty : (guard (write n.toNat ≠ []) : Option Unit) = some () := if_pos (writeOnto_ne_nil _ _)
  have fits : (guard (n.toNat < Nat.pow 2 64) : Option Unit) = some () := if_pos n.toNat_lt
  have value : readOnto 0 (write n.toNat) = some n.toNat := by
    rw [write, readOnto_writeOnto, readOnto]
  rw [read?_of_unsigned unsigned, readUnsigned?, nonempty, value]
  change (guard (n.toNat < Nat.pow 2 64) >>= fun _ => some n.toNat) = _
  rw [fits]
  rfl

end Base36

end Sketch
