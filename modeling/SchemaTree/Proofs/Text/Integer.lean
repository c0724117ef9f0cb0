import SchemaTree.Text.Integer

/-!
# Whole numbers are read as they are written
-/

namespace SchemaTree.Text

theorem decimalValue?_digit {c : Char} (h : c.isDigit = true) :
    decimalValue? c = some (c.toNat - '0'.toNat) := by
  have hrange : '0' ≤ c ∧ c ≤ '9' := by
    simp only [Char.isDigit, Bool.and_eq_true, decide_eq_true_eq] at h
    exact h
  rw [decimalValue?, if_pos hrange]

theorem foldl_digits {cs : List Char} (h : ∀ c ∈ cs, c.isDigit = true) (n : Nat) :
    cs.foldl (fun n c => n.bind fun n => (decimalValue? c).map (10 * n + ·)) (some n) =
      some (Nat.ofDigitChars 10 cs n) := by
  induction cs generalizing n with
  | nil => rw [List.foldl_nil, Nat.ofDigitChars_nil]
  | cons c cs ih =>
    have hc := decimalValue?_digit (h c List.mem_cons_self)
    rw [List.foldl_cons, Option.bind_some, hc, Option.map_some, Nat.ofDigitChars_cons]
    exact ih (fun d hd => h d (List.mem_cons_of_mem _ hd)) _

theorem isDigit_natText (n : Nat) : ∀ c ∈ Nat.toDigits 10 n, c.isDigit = true := by
  intro c hc
  exact Nat.isDigit_of_mem_toDigits (by decide) (by decide) hc

theorem readDigits?_toDigits (n : Nat) : readDigits? (Nat.toDigits 10 n) = some n := by
  have hvalue := foldl_digits (isDigit_natText n) 0
  rw [Nat.ofDigitChars_ten_toDigits] at hvalue
  have hne : (Nat.toDigits 10 n).isEmpty = false := by
    simp
  rw [readDigits?, hne]
  exact hvalue

theorem readNat?_natText (n : Nat) : readNat? (natText n) = some n := by
  have hread := readDigits?_toDigits n
  have hdigit := isDigit_natText n
  simp only [readNat?, natText, String.toList_ofList]
  -- The first digit is no sign.
  split
  · rename_i heq
    rw [heq] at hdigit
    exact absurd (hdigit _ List.mem_cons_self) (by decide)
  · exact hread

theorem readInt?_natText (n : Nat) : readInt? (natText n) = some (n : Int) := by
  have hread := readDigits?_toDigits n
  have hdigit := isDigit_natText n
  simp only [readInt?, natText, String.toList_ofList]
  -- The first digit is no sign.
  split
  · rename_i heq
    rw [heq] at hdigit
    exact absurd (hdigit _ List.mem_cons_self) (by decide)
  · rename_i heq
    rw [heq] at hdigit
    exact absurd (hdigit _ List.mem_cons_self) (by decide)
  · rw [hread]
    rfl

theorem readInt?_intText (n : Int) : readInt? (intText n) = some n := by
  cases n with
  | ofNat n => exact readInt?_natText n
  | negSucc n =>
    have htext : (intText (.negSucc n)).toList = '-' :: Nat.toDigits 10 (n + 1) := by
      simp [intText, natText]
    rw [readInt?, htext]
    show (readDigits? (Nat.toDigits 10 (n + 1))).map (fun n => -(n : Int)) = _
    rw [readDigits?_toDigits]
    rfl

/-! ### Hexadecimal digits -/

theorem hexValue?_hexDigit : ∀ n < 16, hexValue? (hexDigit n) = some n := by decide

theorem valueInBase?_hexPair {n : Nat} (h : n < 256) :
    valueInBase? 16 hexValue? (hexPair n) = some n := by
  have hhigh := hexValue?_hexDigit (n / 16 % 16) (by omega)
  have hlow := hexValue?_hexDigit (n % 16) (by omega)
  have hvalue : 16 * (n / 16 % 16) + n % 16 = n := by omega
  simp [valueInBase?, hexPair, hhigh, hlow, hvalue]

end SchemaTree.Text
