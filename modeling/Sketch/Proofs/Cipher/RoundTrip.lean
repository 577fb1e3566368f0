import Sketch.Proofs.Cipher.Codecs

/-!
Texts that were obfuscated are read back. No field of a token can hold the colon that ends it, and masking twice with
the same key is as good as never.
-/

namespace Sketch

namespace Text

theorem dropPiece?_append (piece rest : List Char) : dropPiece? piece (piece ++ rest) = some rest := by
  have starts : piece.isPrefixOf (piece ++ rest) = true :=
    List.isPrefixOf_iff_prefix.mpr (List.prefix_append piece rest)
  rw [dropPiece?, if_pos starts, List.drop_left]

end Text

namespace Cipher

theorem mask_mask (key bytes : List UInt8) : mask key (mask key bytes) = bytes := by
  have cancels (b x : UInt8) : b ^^^ x ^^^ x = b := by
    rw [UInt8.xor_assoc, UInt8.xor_self, UInt8.xor_zero]
  apply List.ext_getElem
  · simp [mask]
  · intro i _ _
    simp [mask, cancels]

/-! ### Bytes of a text -/

theorem toList_loop (bytes : ByteArray) (i : Nat) (read : List UInt8) :
    ByteArray.toList.loop bytes i read = read.reverse ++ bytes.data.toList.drop i := by
  induction i, read using ByteArray.toList.loop.induct bytes with
  | case1 i read inside ih =>
    have here : i < bytes.data.toList.length := inside
    have byte : bytes.get! i = bytes.data.toList[i] := by
      simp [ByteArray.get!, getElem!_pos, inside]
    rw [ByteArray.toList.loop, if_pos inside, ih, List.drop_eq_getElem_cons here, byte,
      List.reverse_cons, List.append_assoc, List.singleton_append]
  | case2 i read outside =>
    have behind : bytes.data.toList.length ≤ i := Nat.le_of_not_lt outside
    rw [ByteArray.toList.loop, if_neg outside, List.drop_eq_nil_of_le behind, List.append_nil]

/-- The bytes of a text are the form of the text. -/
theorem textOfBytes?_toUTF8 (text : String) : textOfBytes? text.toUTF8.toList = some text := by
  have same : (⟨text.toUTF8.toList.toArray⟩ : ByteArray) = text.toUTF8 := by
    rw [ByteArray.toList, toList_loop, List.reverse_nil, List.nil_append, List.drop_zero,
      Array.toArray_toList]
  have valid : text.toUTF8.IsValidUTF8 := text.isValidUTF8
  rw [textOfBytes?, same, String.fromUTF8?, dif_pos valid]
  rfl

/-! ### Fields -/

theorem fields_of_colon_not_mem {part : List Char} (whole : ':' ∉ part) : fields part = [part] := by
  induction part with
  | nil => rfl
  | cons c part ih =>
    rw [List.mem_cons, not_or] at whole
    rw [fields, if_neg (Ne.symm whole.1), ih whole.2]

theorem fields_append_colon {part : List Char} (whole : ':' ∉ part) (rest : List Char) :
    fields (part ++ ':' :: rest) = part :: fields rest := by
  induction part with
  | nil => rw [List.nil_append, fields, if_pos rfl]
  | cons c part ih =>
    rw [List.mem_cons, not_or] at whole
    rw [List.cons_append, fields, if_neg (Ne.symm whole.1), ih whole.2]

theorem colon_not_mem_encode {a : Base64.Alphabet} (apart : ∀ d < 64, ':' ≠ a.sign d) (padded : Bool)
    (bytes : List UInt8) : ':' ∉ Base64.encode a padded bytes := by
  intro member
  rcases Base64.mem_encode member with padding | ⟨d, small, isSign⟩
  · exact absurd padding (by decide)
  · exact apart d small isSign

theorem colon_not_mem_write (n : Nat) : ':' ∉ Base36.write n := by
  intro member
  obtain ⟨d, small, isSign⟩ := Base36.mem_write member
  have apart : ∀ d < 36, ':' ≠ Base36.sign d := by decide
  exact apart d small isSign

/-- The fields of a token are salt, time and payload, whatever they hold. -/
theorem fields_body (salt payload : List UInt8) (millis : Nat) :
    fields (Base64.encode Base64.urlSafe false salt ++ ':' :: Base36.write millis
        ++ ':' :: Base64.encode Base64.standard true payload) =
      [Base64.encode Base64.urlSafe false salt, Base36.write millis,
        Base64.encode Base64.standard true payload] := by
  have apartUrl : ∀ d < 64, ':' ≠ Base64.urlSafe.sign d := by decide
  have apart : ∀ d < 64, ':' ≠ Base64.standard.sign d := by decide
  rw [List.append_assoc, List.cons_append, fields_append_colon (colon_not_mem_encode apartUrl _ _),
    fields_append_colon (colon_not_mem_write millis),
    fields_of_colon_not_mem (colon_not_mem_encode apart _ _)]

/-- Every text is read back from its token, whatever salt and time it was made with. -/
theorem decrypt_encryptWith (plain salt : String) (millis : UInt64) :
    decrypt (encryptWith plain salt millis.toNat) = .ok plain := by
  have body : Text.dropPiece? head (encryptWith plain salt millis.toNat).toList =
      some (Base64.encode Base64.urlSafe false salt.toUTF8.toList ++ ':' :: Base36.write millis.toNat
        ++ ':' :: Base64.encode Base64.standard true
          (mask (key salt (Base36.write millis.toNat)) plain.toUTF8.toList)) := by
    rw [encryptWith, String.toList_ofList, List.append_assoc, List.append_assoc, Text.dropPiece?_append]
    rw [List.append_assoc]
  have opened : open? [Base64.encode Base64.urlSafe false salt.toUTF8.toList, Base36.write millis.toNat,
      Base64.encode Base64.standard true
        (mask (key salt (Base36.write millis.toNat)) plain.toUTF8.toList)] = some plain := by
    simp only [open?, Base64.decode?_encode Base64.Alphabet.urlSafe_proper,
      Base64.decode?_encode Base64.Alphabet.standard_proper, Base36.read?_write, textOfBytes?_toUTF8,
      mask_mask, Option.bind_eq_bind, Option.bind_some]
  rw [decrypt, body]
  simp only [fields_body, opened]

end Cipher

end Sketch
