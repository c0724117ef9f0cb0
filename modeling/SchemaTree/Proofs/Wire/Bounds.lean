import SchemaTree.Proofs.Sequence
import SchemaTree.Proofs.Wire.RoundTrip

/-!
# What is read is in range

A varint that is read is below `2 ^ 64`, and so is the number of eight bytes. A number with sign comes
back from its varint if it fits into the width at which it is read.
-/

namespace SchemaTree.Wire

/-! ### Varints -/

theorem readVarintAt?_lt {bs rest : Bytes} {place v : Nat} (hplace : place ≤ 9)
    (h : readVarintAt? place bs = some (v, rest)) : v < Width.size (64 - 7 * place) := by
  induction bs generalizing place v with
  | nil => cases h
  | cons b bs ih =>
    simp only [readVarintAt?] at h
    split at h
    · rename_i hsmall
      have hless : b.toNat < 128 := UInt8.lt_iff_toNat_lt.mp hsmall
      split at h
      · cases h
      · rename_i hone
        cases Option.some.inj h
        rcases Nat.lt_or_eq_of_le hplace with hlt | rfl
        · have hleft := Width.size_pos (64 - 7 * (place + 1))
          rw [size_left hlt]
          omega
        · have hle : ¬1 < b.toNat := fun hb => hone ⟨rfl, UInt8.lt_iff_toNat_lt.mpr hb⟩
          have hsize : Width.size (64 - 7 * 9) = 2 := rfl
          omega
    · split at h
      · cases h
      · rename_i hne
        obtain ⟨⟨high, rest'⟩, hread, heq⟩ := Option.map_eq_some_iff.mp h
        cases heq
        have hhigh := ih (by omega) hread
        have hbyte := b.toNat_lt
        rw [size_left (by omega)]
        omega

theorem readVarint?_lt {bs rest : Bytes} {v : Nat} (h : readVarint? bs = some (v, rest)) :
    v < Width.size 64 := readVarintAt?_lt (Nat.zero_le 9) h

theorem littleEndian_lt (bs : Bytes) : littleEndian bs < Width.size (8 * bs.length) := by
  induction bs with
  | nil => exact Nat.one_pos
  | cons b bs ih =>
    have hbyte := b.toNat_lt
    have hcons : littleEndian (b :: bs) = b.toNat + 256 * littleEndian bs := rfl
    rw [hcons, List.length_cons, size_bytes]
    omega

theorem take?_length {n : Nat} {bs front rest : Bytes} (h : take? n bs = some (front, rest)) :
    front.length = n := by
  simp only [take?] at h
  split at h
  · rename_i hlength
    cases Option.some.inj h
    exact hlength
  · cases h

/-! ### Fields -/

/-- Values whose numbers are in range. -/
def Value.InRange : Value → Prop
  | .varint v => v < Width.size 64
  | .fixed64 v => v < Width.size 64
  | .fixed32 v => v < Width.size 32
  | .bytes _ | .group _ _ => True

theorem readField?_inRange {bs rest : Bytes} {field : Field} (h : readField? bs = some (field, rest)) :
    field.value.InRange := by
  obtain ⟨⟨number, type, after⟩, _, h⟩ := Option.bind_eq_some_iff.mp h
  dsimp only at h
  split at h
  · obtain ⟨⟨v, _⟩, hv, h⟩ := Option.bind_eq_some_iff.mp h
    cases Option.some.inj h
    exact readVarint?_lt hv
  · obtain ⟨⟨v, _⟩, hv, h⟩ := Option.bind_eq_some_iff.mp h
    cases Option.some.inj h
    have hlt := littleEndian_lt v
    rw [take?_length hv] at hlt
    exact hlt
  · obtain ⟨⟨v, _⟩, _, h⟩ := Option.bind_eq_some_iff.mp h
    cases Option.some.inj h
    trivial
  · obtain ⟨⟨levels, last, _⟩, _, h⟩ := Option.bind_eq_some_iff.mp h
    cases Option.some.inj h
    trivial
  · obtain ⟨⟨v, _⟩, hv, h⟩ := Option.bind_eq_some_iff.mp h
    cases Option.some.inj h
    have hlt := littleEndian_lt v
    rw [take?_length hv] at hlt
    exact hlt
  · cases h

theorem readFields?_inRange {bs : Bytes} {fields : List Field} (h : readFields? bs = some fields) :
    ∀ f ∈ fields, f.value.InRange := by
  have key (fuel : Nat) (bs : Bytes) (fields : List Field)
      (h : readFieldsWithin? fuel bs = some fields) : ∀ f ∈ fields, f.value.InRange := by
    induction fuel generalizing bs fields with
    | zero =>
      cases bs with
      | nil =>
        cases Option.some.inj h
        intro f hf
        cases hf
      | cons b bs => cases h
    | succ fuel ih =>
      cases bs with
      | nil =>
        cases Option.some.inj h
        intro f hf
        cases hf
      | cons b bs =>
        obtain ⟨⟨first, rest⟩, hfirst, h⟩ := Option.bind_eq_some_iff.mp h
        obtain ⟨more, hmore, h⟩ := Option.bind_eq_some_iff.mp h
        cases Option.some.inj h
        intro f hf
        rcases List.mem_cons.mp hf with rfl | hf
        · exact readField?_inRange hfirst
        · exact ih rest more hmore f hf
  exact key _ bs fields h

/-! ### Numbers with sign -/

/-- Whether a number is one of 32 bits with sign. -/
def IsInt32 (n : Int) : Prop := -2147483648 ≤ n ∧ n ≤ 2147483647

instance (n : Int) : Decidable (IsInt32 n) := inferInstanceAs (Decidable (_ ∧ _))

/-- Whether a number is one of 64 bits with sign. -/
def IsInt64 (n : Int) : Prop := -9223372036854775808 ≤ n ∧ n ≤ 9223372036854775807

theorem isInt32_int32 (v : Nat) : IsInt32 (int32 v) := by
  have hsize : Width.size 32 = 4294967296 := rfl
  have hlow : -(4294967296 / 2 : Int) ≤ Int.bmod v 4294967296 := Int.le_bmod (by decide)
  have hhigh : Int.bmod v 4294967296 < (4294967296 + 1) / 2 := Int.bmod_lt (by decide)
  rw [int32, hsize]
  constructor
  · omega
  · omega

theorem isInt64_int64 (v : Nat) : IsInt64 (int64 v) := by
  have hsize : Width.size 64 = 18446744073709551616 := rfl
  have hlow : -(18446744073709551616 / 2 : Int) ≤ Int.bmod v 18446744073709551616 :=
    Int.le_bmod (by decide)
  have hhigh : Int.bmod v 18446744073709551616 < (18446744073709551616 + 1) / 2 :=
    Int.bmod_lt (by decide)
  rw [int64, hsize]
  constructor
  · omega
  · omega

theorem ofInt_lt (n : Int) : ofInt n < Width.size 64 := by
  have hsize : Width.size 64 = 18446744073709551616 := rfl
  rw [ofInt, hsize]
  have hlow := Int.emod_nonneg n (show ((18446744073709551616 : Nat) : Int) ≠ 0 by decide)
  have hhigh := Int.emod_lt_of_pos n (show (0 : Int) < ((18446744073709551616 : Nat) : Int) by decide)
  omega

theorem int32_ofInt {n : Int} (h : IsInt32 n) : int32 (ofInt n) = n := by
  obtain ⟨hlow, hhigh⟩ := h
  have hsize : Width.size 64 = 18446744073709551616 := rfl
  have hsmall : Width.size 32 = 4294967296 := rfl
  rw [int32, ofInt, hsize, hsmall, Int.bmod_def]
  split <;> omega

theorem int64_ofInt {n : Int} (h : IsInt64 n) : int64 (ofInt n) = n := by
  obtain ⟨hlow, hhigh⟩ := h
  have hsize : Width.size 64 = 18446744073709551616 := rfl
  rw [int64, ofInt, hsize, Int.bmod_def]
  split <;> omega

end SchemaTree.Wire
