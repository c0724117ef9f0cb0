import SchemaTree.Wire

/-!
# Fields are read as they are written

The reader undoes the writer: a varint below `2 ^ 64`, the key of a field number and the bytes after a
length come back as they were, whatever follows them. Fields that fit these bounds come back one by one.
-/

namespace SchemaTree.Wire

/-! ### Varints -/

theorem toNat_toUInt8 {n : Nat} (h : n < 256) : n.toUInt8.toNat = n := by
  rw [Nat.toUInt8_eq, UInt8.toNat_ofNat_of_lt' h]

/-- What is left of a number shrinks by seven bits at each place of its varint. -/
theorem size_left {place : Nat} (h : place < 9) :
    Width.size (64 - 7 * place) = 128 * Width.size (64 - 7 * (place + 1)) := by
  have hbits : 64 - 7 * place = 7 + (64 - 7 * (place + 1)) := by omega
  rw [hbits, Width.size_add]
  rfl

-- At the tenth place only one bit is left.
theorem readVarintAt?_bytes (fuel : Nat) {place n : Nat} (rest : Bytes) (hplace : place + fuel = 10)
    (hfuel : 1 ≤ fuel) (hn : n < Width.size (64 - 7 * place)) :
    readVarintAt? place (varintBytesWithin fuel n ++ rest) = some (n, rest) := by
  induction fuel generalizing place n with
  | zero => omega
  | succ fuel ih =>
    have hlast : place = 9 → n < 2 := by
      rintro rfl
      exact hn
    by_cases hsmall : n < 128
    · have hbyte : n.toUInt8.toNat = n := toNat_toUInt8 (by omega)
      have hless : n.toUInt8 < 128 := UInt8.lt_iff_toNat_lt.mpr (by rw [hbyte]; exact hsmall)
      have hone : ¬(place = 9 ∧ 1 < n.toUInt8) := by
        rintro ⟨hplace, hone⟩
        have hgreater : 1 < n.toUInt8.toNat := UInt8.lt_iff_toNat_lt.mp hone
        have := hlast hplace
        omega
      simp only [varintBytesWithin, hsmall, if_true, List.singleton_append, readVarintAt?, hless, hone,
        if_false, hbyte]
    · have hbyte : (n % 128 + 128).toUInt8.toNat = n % 128 + 128 := toNat_toUInt8 (by omega)
      have hmore : ¬(n % 128 + 128).toUInt8 < 128 := by
        rw [UInt8.lt_iff_toNat_lt, hbyte]
        exact Nat.not_lt.mpr (Nat.le_add_left _ _)
      have hne : place ≠ 9 := fun heq => by
        have := hlast heq
        omega
      have hhigh : n / 128 < Width.size (64 - 7 * (place + 1)) := by
        rw [size_left (by omega)] at hn
        exact Nat.div_lt_of_lt_mul hn
      have hrest : readVarintAt? (place + 1) (varintBytesWithin fuel (n / 128) ++ rest) =
          some (n / 128, rest) := by
        apply ih
        · omega
        · omega
        · exact hhigh
      have hsum : n % 128 + 128 - 128 + 128 * (n / 128) = n := by omega
      simp only [varintBytesWithin, hsmall, if_false, List.cons_append, readVarintAt?, hmore, hne,
        hrest, Option.map_some, hbyte, hsum]

theorem readVarint?_bytes {n : Nat} (rest : Bytes) (h : n < Width.size 64) :
    readVarint? (varintBytes n ++ rest) = some (n, rest) :=
  readVarintAt?_bytes 10 rest rfl (by decide) h

/-! ### Keys, lengths and fixed numbers -/

/-- Numbers that a field can have on the wire. -/
def IsTag (number : Nat) : Prop := 1 ≤ number ∧ number < 536870912

instance (number : Nat) : Decidable (IsTag number) := inferInstanceAs (Decidable (_ ∧ _))

theorem readKey?_bytes {number type : Nat} (rest : Bytes) (hnumber : IsTag number) (htype : type < 6) :
    readKey? (keyBytes number type ++ rest) = some (number, type, rest) := by
  obtain ⟨hlow, hhigh⟩ := hnumber
  have hsize : Width.size 32 = 4294967296 := rfl
  have hwide : Width.size 64 = 18446744073709551616 := rfl
  have hkey : 8 * number + type < Width.size 32 ∧ 8 ≤ 8 * number + type ∧
      (8 * number + type) % 8 < 6 := by omega
  have hdiv : (8 * number + type) / 8 = number := by omega
  have hmod : (8 * number + type) % 8 = type := by omega
  rw [readKey?, keyBytes, readVarint?_bytes rest (by omega), Option.bind_eq_bind, Option.bind_some]
  dsimp only
  rw [if_pos hkey, hdiv, hmod]

theorem take?_append (bs rest : Bytes) : take? bs.length (bs ++ rest) = some (bs, rest) := by
  simp only [take?, List.take_left, List.drop_left, if_true]

theorem readBytes?_bytes {bs : Bytes} (rest : Bytes) (h : bs.length < Width.size 64) :
    readBytes? (lengthBytes bs ++ rest) = some (bs, rest) := by
  rw [readBytes?, lengthBytes, List.append_assoc, readVarint?_bytes _ h, Option.bind_eq_bind,
    Option.bind_some]
  exact take?_append bs rest

theorem length_fixedBytes (count n : Nat) : (fixedBytes count n).length = count := by
  induction count generalizing n with
  | zero => rfl
  | succ count ih => rw [fixedBytes, List.length_cons, ih]

theorem size_bytes (count : Nat) : Width.size (8 * (count + 1)) = 256 * Width.size (8 * count) := by
  have hbits : 8 * (count + 1) = 8 + 8 * count := by omega
  rw [hbits, Width.size_add]
  rfl

theorem littleEndian_fixedBytes (count n : Nat) (h : n < Width.size (8 * count)) :
    littleEndian (fixedBytes count n) = n := by
  induction count generalizing n with
  | zero =>
    have hone : Width.size (8 * 0) = 1 := rfl
    have hzero : n = 0 := by omega
    rw [hzero]
    rfl
  | succ count ih =>
    have hhigh : n / 256 < Width.size (8 * count) := by
      rw [size_bytes] at h
      exact Nat.div_lt_of_lt_mul h
    have hlow : (n % 256).toUInt8.toNat = n % 256 := toNat_toUInt8 (by omega)
    have hcons : littleEndian (fixedBytes (count + 1) n) =
        (n % 256).toUInt8.toNat + 256 * littleEndian (fixedBytes count (n / 256)) := rfl
    rw [hcons, hlow, ih _ hhigh]
    omega

theorem take?_fixedBytes (count n : Nat) (rest : Bytes) :
    take? count (fixedBytes count n ++ rest) = some (fixedBytes count n, rest) := by
  have htake := take?_append (fixedBytes count n) rest
  rwa [length_fixedBytes] at htake

/-! ### Texts -/

theorem utf8?_textBytes (s : String) : utf8? (textBytes s) = some s := by
  have hbytes : (⟨(textBytes s).toArray⟩ : ByteArray) = s.toUTF8 := by
    rw [textBytes, Array.toArray_toList]
  rw [utf8?, hbytes]
  exact dif_pos s.isValidUTF8

/-! ### Fields -/

/-- Values that fit on the wire and are no group. -/
def Value.Fits : Value → Prop
  | .varint v => v < Width.size 64
  | .fixed64 v => v < Width.size 64
  | .bytes b => b.length < Width.size 64
  | .group _ _ => False
  | .fixed32 v => v < Width.size 32

structure Field.Fits (field : Field) : Prop where
  tag : IsTag field.number
  value : field.value.Fits

theorem readField?_bytes {field : Field} (rest : Bytes) (h : field.Fits) :
    readField? (field.bytes ++ rest) = some (field, rest) := by
  obtain ⟨number, value⟩ := field
  obtain ⟨htag, hvalue⟩ := h
  cases value with
  | varint v =>
    have hkey := readKey?_bytes (varintBytes v ++ rest) htag (show 0 < 6 by decide)
    simp only [Field.bytes, List.append_assoc, readField?, hkey, readVarint?_bytes rest hvalue,
      Option.bind_eq_bind, Option.bind_some]
  | fixed64 v =>
    have hkey := readKey?_bytes (fixedBytes 8 v ++ rest) htag (show 1 < 6 by decide)
    simp only [Field.bytes, List.append_assoc, readField?, hkey, take?_fixedBytes,
      littleEndian_fixedBytes 8 v hvalue, Option.bind_eq_bind, Option.bind_some]
  | bytes b =>
    have hkey := readKey?_bytes (lengthBytes b ++ rest) htag (show 2 < 6 by decide)
    simp only [Field.bytes, List.append_assoc, readField?, hkey, readBytes?_bytes rest hvalue,
      Option.bind_eq_bind, Option.bind_some]
  | group b levels => exact hvalue.elim
  | fixed32 v =>
    have hkey := readKey?_bytes (fixedBytes 4 v ++ rest) htag (show 5 < 6 by decide)
    simp only [Field.bytes, List.append_assoc, readField?, hkey, take?_fixedBytes,
      littleEndian_fixedBytes 4 v hvalue, Option.bind_eq_bind, Option.bind_some]

theorem varintBytes_ne_nil (n : Nat) : varintBytes n ≠ [] := by
  simp only [varintBytes, varintBytesWithin]
  split
  · exact List.cons_ne_nil _ _
  · exact List.cons_ne_nil _ _

theorem field_bytes_ne_nil (field : Field) : field.bytes ≠ [] := by
  obtain ⟨number, value⟩ := field
  have hkey (type : Nat) : keyBytes number type ≠ [] := varintBytes_ne_nil _
  cases value <;> simp only [Field.bytes, ne_eq, List.append_eq_nil_iff, hkey, false_and, not_false_eq_true]

/-- Fields that fit are read as they are written. -/
theorem readFields?_bytesOf {fields : List Field} (h : ∀ f ∈ fields, f.Fits) :
    readFields? (bytesOf fields) = some fields := by
  have key (fuel : Nat) (hfuel : (bytesOf fields).length ≤ fuel) :
      readFieldsWithin? fuel (bytesOf fields) = some fields := by
    induction fields generalizing fuel with
    | nil =>
      cases fuel <;> rfl
    | cons field fields ih =>
      have hcons : bytesOf (field :: fields) = field.bytes ++ bytesOf fields := rfl
      have hpos := List.length_pos_iff.mpr (field_bytes_ne_nil field)
      rw [hcons, List.length_append] at hfuel
      obtain ⟨b, bs, hbs⟩ := List.exists_cons_of_ne_nil (field_bytes_ne_nil field)
      cases fuel with
      | zero => omega
      | succ fuel =>
        have hrest := ih (fun f hf => h f (List.mem_cons_of_mem _ hf)) fuel (by omega)
        have hfirst := readField?_bytes (bytesOf fields) (h field List.mem_cons_self)
        rw [hcons]
        rw [hbs, List.cons_append] at hfirst ⊢
        rw [readFieldsWithin?, hfirst, Option.bind_eq_bind, Option.bind_some]
        · dsimp only
          rw [hrest]
          rfl
        · intro hnil
          cases hnil
  exact key _ (Nat.le_refl _)

end SchemaTree.Wire
