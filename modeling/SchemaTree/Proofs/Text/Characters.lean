import SchemaTree.Text.Characters

/-!
# The characters of a text make it up

Decoding the bytes of a text gives back the characters that it was made of.
-/

namespace SchemaTree.Text

theorem decodeFrom_first {n : Nat} (hn : n < 256) (bs : List UInt8) :
    decodeFrom 0 0 (UInt8.ofNat n :: bs) =
      if n < 0x80 then Char.ofNat n :: decodeFrom 0 0 bs
      else if n < 0xe0 then decodeFrom (n % 32) 1 bs
      else if n < 0xf0 then decodeFrom (n % 16) 2 bs
      else decodeFrom (n % 8) 3 bs := by
  have hbyte : (UInt8.ofNat n).toNat = n := UInt8.toNat_ofNat_of_lt' hn
  rw [decodeFrom]
  simp only [hbyte]

/-- Bytes after the first one add six bits each. -/
theorem decodeFrom_low {high n : Nat} (bs : List UInt8) (more : Nat) :
    decodeFrom high (more + 1) (UInt8.ofNat (n % 64 + 128) :: bs) =
      if more = 0 then Char.ofNat (64 * high + n % 64) :: decodeFrom 0 0 bs
      else decodeFrom (64 * high + n % 64) more bs := by
  have hbyte : (UInt8.ofNat (n % 64 + 128)).toNat % 64 = n % 64 := by
    rw [UInt8.toNat_ofNat_of_lt' (by show n % 64 + 128 < 256; omega)]
    omega
  cases more with
  | zero => rw [decodeFrom, hbyte, if_pos rfl]
  | succ more => rw [decodeFrom, hbyte, if_neg (Nat.succ_ne_zero more)]

theorem decodeFrom_encoded (c : Char) (bs : List UInt8) :
    decodeFrom 0 0 (String.utf8EncodeChar c ++ bs) = c :: decodeFrom 0 0 bs := by
  have hbound : c.val.toNat < 1114112 := by
    have hvalid := c.valid
    unfold UInt32.isValidChar Nat.isValidChar at hvalid
    omega
  have hchar : Char.ofNat c.val.toNat = c := Char.ofNat_toNat c
  unfold String.utf8EncodeChar
  generalize c.val.toNat = v at hbound hchar
  dsimp only
  split
  · rw [List.singleton_append, decodeFrom_first (by omega), if_pos (by omega), hchar]
  · split
    · have hcode : 64 * ((v / 64 % 32 + 192) % 32) + v % 64 = v := by omega
      simp only [List.cons_append, List.nil_append]
      rw [decodeFrom_first (by omega), if_neg (by omega), if_pos (by omega), decodeFrom_low, if_pos rfl, hcode,
        hchar]
    · split
      · have hcode : 64 * (64 * ((v / 4096 % 16 + 224) % 16) + v / 64 % 64) + v % 64 = v := by omega
        simp only [List.cons_append, List.nil_append]
        rw [decodeFrom_first (by omega), if_neg (by omega), if_neg (by omega), if_pos (by omega),
          decodeFrom_low, if_neg Nat.one_ne_zero, decodeFrom_low, if_pos rfl, hcode, hchar]
      · have hcode : 64 * (64 * (64 * ((v / 262144 % 8 + 240) % 8) + v / 4096 % 64) + v / 64 % 64) + v % 64 =
            v := by omega
        simp only [List.cons_append, List.nil_append]
        rw [decodeFrom_first (by omega), if_neg (by omega), if_neg (by omega), if_neg (by omega),
          decodeFrom_low, if_neg (by decide), decodeFrom_low, if_neg Nat.one_ne_zero, decodeFrom_low,
          if_pos rfl, hcode, hchar]

theorem decodeFrom_flatMap (cs : List Char) : decodeFrom 0 0 (cs.flatMap String.utf8EncodeChar) = cs := by
  induction cs with
  | nil => rfl
  | cons c cs ih => rw [List.flatMap_cons, decodeFrom_encoded, ih]

@[simp] theorem characters_eq (text : String) : characters text = text.toList := by
  have hbytes : text.toUTF8.data.toList = text.toList.flatMap String.utf8EncodeChar := by
    rw [String.toUTF8, ← String.ofList_toList (s := text), String.toByteArray_ofList, List.utf8Encode,
      List.toList_data_toByteArray, String.ofList_toList]
  rw [characters, hbytes, decodeFrom_flatMap]

end SchemaTree.Text
