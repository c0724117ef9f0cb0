import SchemaTree.Proofs.Sequence
import SchemaTree.Proofs.Wire.RoundTrip

/-!
# What can be read of written fields

A writer does not check that a number, a length or a field number fits. A reader does: whatever it reads of
written fields has their numbers, varints and bytes. Groups are left out.
-/

namespace SchemaTree.Wire

/-! ### Varints and keys -/

/-- A varint that can be read was written of a number for which there was room. -/
theorem lt_of_readVarintAt? (fuel : Nat) {place n : Nat} {rest : Bytes} {r : Nat × Bytes}
    (hplace : place + fuel = 10) (hfuel : 1 ≤ fuel)
    (h : readVarintAt? place (varintBytesWithin fuel n ++ rest) = some r) :
    n < Width.size (64 - 7 * place) := by
  induction fuel generalizing place n r with
  | zero => omega
  | succ fuel ih =>
    by_cases hsmall : n < 128
    · by_cases hlast : place = 9
      · have hbyte : n.toUInt8.toNat = n := toNat_toUInt8 (by omega)
        simp only [varintBytesWithin, hsmall, if_true, List.singleton_append, readVarintAt?, hlast,
          true_and] at h
        split at h
        · split at h
          · cases h
          · rename_i hone
            have hle : ¬1 < n.toUInt8.toNat := fun hlt => hone (UInt8.lt_iff_toNat_lt.mpr hlt)
            have hsize : Width.size (64 - 7 * 9) = 2 := rfl
            rw [hlast]
            omega
        · cases h
      · have hpos := Width.size_pos (64 - 7 * (place + 1))
        rw [size_left (by omega)]
        omega
    · have hbyte : (n % 128 + 128).toUInt8.toNat = n % 128 + 128 := toNat_toUInt8 (by omega)
      have hmore : ¬(n % 128 + 128).toUInt8 < 128 := by
        rw [UInt8.lt_iff_toNat_lt, hbyte]
        exact Nat.not_lt.mpr (Nat.le_add_left _ _)
      simp only [varintBytesWithin, hsmall, if_false, List.cons_append, readVarintAt?, hmore] at h
      split at h
      · cases h
      · obtain ⟨high, hread, _⟩ := Option.map_eq_some_iff.mp h
        have hhigh := ih (by omega) (by omega) hread
        rw [size_left (by omega)]
        omega

/-- A varint that can be read comes back as the number that was written. -/
theorem readVarint?_written {n v : Nat} {rest after : Bytes}
    (h : readVarint? (varintBytes n ++ rest) = some (v, after)) :
    n < Width.size 64 ∧ v = n ∧ after = rest := by
  have hn : n < Width.size 64 := lt_of_readVarintAt? 10 rfl (by decide) h
  rw [readVarint?_bytes rest hn] at h
  cases Option.some.inj h
  exact ⟨hn, rfl, rfl⟩

theorem readKey?_written {number type n t : Nat} {rest after : Bytes} (htype : type < 6)
    (h : readKey? (keyBytes number type ++ rest) = some (n, t, after)) :
    n = number ∧ t = type ∧ after = rest := by
  obtain ⟨⟨key, rest'⟩, hkey, hread⟩ := Option.bind_eq_some_iff.mp h
  obtain ⟨-, rfl, rfl⟩ := readVarint?_written hkey
  dsimp only at hread
  split at hread
  · cases Option.some.inj hread
    exact ⟨by omega, by omega, rfl⟩
  · cases hread

theorem readBytes?_written {bs v rest after : Bytes}
    (h : readBytes? (lengthBytes bs ++ rest) = some (v, after)) : v = bs ∧ after = rest := by
  rw [lengthBytes, List.append_assoc] at h
  obtain ⟨⟨n, rest'⟩, hn, htake⟩ := Option.bind_eq_some_iff.mp h
  obtain ⟨-, rfl, rfl⟩ := readVarint?_written hn
  dsimp only at htake
  rw [take?_append] at htake
  cases Option.some.inj htake
  exact ⟨rfl, rfl⟩

/-! ### Fields -/

def Value.IsGroup : Value → Prop
  | .group .. => True
  | _ => False

/-- What is read of a field: its number, and its value if that is a varint or bytes. -/
structure ReadAs (field read : Field) : Prop where
  number : read.number = field.number
  varint : ∀ v, field.value = .varint v → read.value = .varint v
  bytes : ∀ b, field.value = .bytes b → read.value = .bytes b

theorem readField?_written {field read : Field} {rest after : Bytes} (hgroup : ¬field.value.IsGroup)
    (h : readField? (field.bytes ++ rest) = some (read, after)) : after = rest ∧ ReadAs field read := by
  obtain ⟨number, value⟩ := field
  obtain ⟨⟨n, t, rest'⟩, hkey, hvalue⟩ := Option.bind_eq_some_iff.mp h
  cases value
  case varint v =>
    simp only [Field.bytes, List.append_assoc] at hkey
    obtain ⟨rfl, rfl, rfl⟩ := readKey?_written (by decide) hkey
    obtain ⟨⟨v', rest'⟩, hv, hfield⟩ := Option.bind_eq_some_iff.mp hvalue
    obtain ⟨-, rfl, rfl⟩ := readVarint?_written hv
    cases Option.some.inj hfield
    exact ⟨rfl, rfl, fun _ h => h, fun _ h => h⟩
  case bytes b =>
    simp only [Field.bytes, List.append_assoc] at hkey
    obtain ⟨rfl, rfl, rfl⟩ := readKey?_written (by decide) hkey
    obtain ⟨⟨v', rest'⟩, hv, hfield⟩ := Option.bind_eq_some_iff.mp hvalue
    obtain ⟨rfl, rfl⟩ := readBytes?_written hv
    cases Option.some.inj hfield
    exact ⟨rfl, rfl, fun _ h => h, fun _ h => h⟩
  case group b levels => exact absurd trivial hgroup
  -- Of a value of fixed width only the number counts.
  case fixed64 v | fixed32 v =>
    simp only [Field.bytes, List.append_assoc] at hkey
    obtain ⟨rfl, rfl, rfl⟩ := readKey?_written (by decide) hkey
    obtain ⟨⟨v', rest'⟩, hv, hfield⟩ := Option.bind_eq_some_iff.mp hvalue
    rw [take?_fixedBytes] at hv
    cases Option.some.inj hv
    cases Option.some.inj hfield
    refine ⟨rfl, rfl, ?_, ?_⟩
    all_goals
      intro _ hother
      cases hother

theorem readFieldsWithin?_written (fuel : Nat) {fields read : List Field}
    (hgroups : ∀ f ∈ fields, ¬f.value.IsGroup)
    (h : readFieldsWithin? fuel (bytesOf fields) = some read) : List.Forall₂ ReadAs fields read := by
  induction fields generalizing fuel read with
  | nil =>
    cases fuel <;> cases Option.some.inj h <;> exact .nil
  | cons field fields ih =>
    obtain ⟨hgroup, hgroups⟩ := List.forall_mem_cons.mp hgroups
    have hcons : bytesOf (field :: fields) = field.bytes ++ bytesOf fields := rfl
    obtain ⟨b, bs, hbs⟩ := List.exists_cons_of_ne_nil (field_bytes_ne_nil field)
    cases fuel with
    | zero =>
      rw [hcons, hbs] at h
      cases h
    | succ fuel =>
      have hstep : readFieldsWithin? (fuel + 1) (field.bytes ++ bytesOf fields) =
          (readField? (field.bytes ++ bytesOf fields)).bind fun p =>
            (readFieldsWithin? fuel p.2).bind fun more => some (p.1 :: more) := by
        rw [hbs]
        rfl
      rw [hcons, hstep] at h
      obtain ⟨⟨first, rest⟩, hfirst, hrest⟩ := Option.bind_eq_some_iff.mp h
      obtain ⟨rfl, hread⟩ := readField?_written hgroup hfirst
      obtain ⟨more, hmore, hread'⟩ := Option.bind_eq_some_iff.mp hrest
      cases Option.some.inj hread'
      exact .cons hread (ih fuel hgroups hmore)

theorem readFields?_written {fields read : List Field} (hgroups : ∀ f ∈ fields, ¬f.value.IsGroup)
    (h : readFields? (bytesOf fields) = some read) : List.Forall₂ ReadAs fields read :=
  readFieldsWithin?_written _ hgroups h

end SchemaTree.Wire
