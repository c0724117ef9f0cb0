import Mathlib.Data.String.Basic
import SchemaTree.Wire

/-!
# Texts are ordered as their bytes

Texts are compared character by character. UTF-8 keeps that order: of two characters the smaller one has
the smaller first byte, or else the same length and the smaller digits in base 64.
-/

namespace SchemaTree.Wire

/-! ### Bytes of one character -/

theorem ofNat_lt_ofNat {m n : Nat} (h : m < n) (hn : n < 256) : UInt8.ofNat m < UInt8.ofNat n := by
  rw [UInt8.lt_iff_toNat_lt, UInt8.toNat_ofNat', UInt8.toNat_ofNat']
  omega

theorem cons_ofNat_lt {m n : Nat} {xs ys : Bytes} (hn : n < 256) (h : m < n ∨ (m = n ∧ xs < ys)) :
    UInt8.ofNat m :: xs < UInt8.ofNat n :: ys := by
  rw [List.cons_lt_cons_iff]
  rcases h with h | ⟨rfl, h⟩
  · exact .inl (ofNat_lt_ofNat h hn)
  · exact .inr ⟨rfl, h⟩

/-- Whatever follows, the bytes of a smaller character come first. -/
theorem utf8EncodeChar_append_lt {c d : Char} (h : c < d) (xs ys : Bytes) :
    String.utf8EncodeChar c ++ xs < String.utf8EncodeChar d ++ ys := by
  have hval : c.val.toNat < d.val.toNat := UInt32.lt_iff_toNat_lt.mp (Char.lt_def.mp h)
  have hbound : d.val.toNat < 1114112 := by
    have hd := d.valid
    unfold UInt32.isValidChar Nat.isValidChar at hd
    omega
  unfold String.utf8EncodeChar
  generalize c.val.toNat = m at hval
  generalize d.val.toNat = n at hval hbound
  dsimp only
  split
  · split
    · exact cons_ofNat_lt (by omega) (.inl hval)
    · split
      · exact cons_ofNat_lt (by omega) (.inl (by omega))
      · split
        · exact cons_ofNat_lt (by omega) (.inl (by omega))
        · exact cons_ofNat_lt (by omega) (.inl (by omega))
  · rw [if_neg (by omega : ¬n ≤ 127)]
    split
    · split
      -- Two bytes each: the digits in base 64 decide.
      · have hdigits : m / 64 < n / 64 ∨ m / 64 = n / 64 ∧ m % 64 < n % 64 := by omega
        refine cons_ofNat_lt (by omega) (hdigits.imp (by omega) fun ⟨hhigh, hlow⟩ => ⟨by omega, ?_⟩)
        exact cons_ofNat_lt (by omega) (.inl (by omega))
      · split
        · exact cons_ofNat_lt (by omega) (.inl (by omega))
        · exact cons_ofNat_lt (by omega) (.inl (by omega))
    · rw [if_neg (by omega : ¬n ≤ 2047)]
      split
      · split
        · have hdigits : m / 4096 < n / 4096 ∨ m / 4096 = n / 4096 ∧ (m / 64 % 64 < n / 64 % 64 ∨
              m / 64 % 64 = n / 64 % 64 ∧ m % 64 < n % 64) := by omega
          refine cons_ofNat_lt (by omega) (hdigits.imp (by omega) fun ⟨hhigh, h⟩ => ⟨by omega, ?_⟩)
          refine cons_ofNat_lt (by omega) (h.imp (by omega) fun ⟨hmiddle, hlow⟩ => ⟨by omega, ?_⟩)
          exact cons_ofNat_lt (by omega) (.inl (by omega))
        · exact cons_ofNat_lt (by omega) (.inl (by omega))
      · rw [if_neg (by omega : ¬n ≤ 65535)]
        have hdigits : m / 262144 < n / 262144 ∨ m / 262144 = n / 262144 ∧
            (m / 4096 % 64 < n / 4096 % 64 ∨ m / 4096 % 64 = n / 4096 % 64 ∧
              (m / 64 % 64 < n / 64 % 64 ∨ m / 64 % 64 = n / 64 % 64 ∧ m % 64 < n % 64)) := by omega
        refine cons_ofNat_lt (by omega) (hdigits.imp (by omega) fun ⟨hhigh, h⟩ => ⟨by omega, ?_⟩)
        refine cons_ofNat_lt (by omega) (h.imp (by omega) fun ⟨hmiddle, h⟩ => ⟨by omega, ?_⟩)
        refine cons_ofNat_lt (by omega) (h.imp (by omega) fun ⟨hnext, hlow⟩ => ⟨by omega, ?_⟩)
        exact cons_ofNat_lt (by omega) (.inl (by omega))

/-! ### Bytes of a text -/

theorem textBytes_eq (s : String) : textBytes s = s.toList.flatMap String.utf8EncodeChar := by
  have hbytes : s.toByteArray = s.toList.utf8Encode := by
    rw [← String.toByteArray_ofList, String.ofList_toList]
  rw [textBytes, String.toUTF8_eq_toByteArray, hbytes, List.utf8Encode, List.data_toByteArray]

theorem utf8EncodeChar_ne_nil (c : Char) : String.utf8EncodeChar c ≠ [] := by
  unfold String.utf8EncodeChar
  dsimp only
  split
  · simp
  · split
    · simp
    · split
      · simp
      · simp

theorem flatMap_utf8EncodeChar_lt {cs ds : List Char} (h : cs < ds) :
    cs.flatMap String.utf8EncodeChar < ds.flatMap String.utf8EncodeChar := by
  induction h with
  | @nil d ds =>
    rw [List.flatMap_nil, List.flatMap_cons]
    cases henc : String.utf8EncodeChar d with
    | nil => exact absurd henc (utf8EncodeChar_ne_nil d)
    | cons b bs => exact .nil
  | @cons c cs ds _ ih =>
    rw [List.flatMap_cons, List.flatMap_cons]
    exact List.append_left_lt ih
  | rel h =>
    rw [List.flatMap_cons, List.flatMap_cons]
    exact utf8EncodeChar_append_lt h _ _

/-- Texts are ordered as the sequences of their bytes. -/
theorem textBytes_lt_textBytes {s t : String} : textBytes s < textBytes t ↔ s < t := by
  have hkeeps {a b : String} (h : a < b) : textBytes a < textBytes b := by
    rw [textBytes_eq, textBytes_eq]
    exact flatMap_utf8EncodeChar_lt (String.lt_iff_toList_lt.mp h)
  constructor
  · intro h
    rcases lt_trichotomy s t with hlt | rfl | hgt
    · exact hlt
    · exact absurd h (List.lt_irrefl _)
    · exact absurd h (List.lt_asymm (hkeeps hgt))
  · exact hkeeps

end SchemaTree.Wire
