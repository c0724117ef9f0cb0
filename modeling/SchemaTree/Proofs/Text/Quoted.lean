import SchemaTree.Proofs.Text.Integer
import SchemaTree.Text.Quoted

/-!
# Quoted texts are read as they are written

What stands between the quotes is made up character by character: a short escape, an escape of two
hexadecimal digits, or the character itself. No control character of ASCII is among these, and no quote
outside an escape, so the text ends at the first quote that is not part of an escape. Undoing the escapes
gives the text back, whatever escapes or parts of escapes its characters spell.
-/

namespace SchemaTree.Text

/-! ### Readers -/

/-- The character that a letter stands for after a backslash. -/
def shortEscape? : Char → Option Char
  | '\\' => some '\\'
  | '"' => some '"'
  | 'n' => some '\n'
  | 'r' => some '\r'
  | 't' => some '\t'
  | _ => none

/-- Undoes the escapes of a text. -/
def unescape? : List Char → Option (List Char)
  | [] => some []
  | '\\' :: 'x' :: high :: low :: cs => do
    let n ← valueInBase? 16 hexValue? [high, low]
    some (Char.ofNat n :: (← unescape? cs))
  | '\\' :: c :: cs => do some ((← shortEscape? c) :: (← unescape? cs))
  | ['\\'] => none
  | c :: cs => do some (c :: (← unescape? cs))

/-- The characters before the first quote that is not part of an escape. The digits of an escape are no
quotes, so it is enough to pass over the character after a backslash. -/
def untilQuote? : List Char → Option (List Char)
  | [] => none
  | '"' :: _ => some []
  | '\\' :: c :: cs => do some ('\\' :: c :: (← untilQuote? cs))
  | c :: cs => do some (c :: (← untilQuote? cs))

theorem unescape?_hex {high low : Char} {n : Nat}
    (h : valueInBase? 16 hexValue? [high, low] = some n) (cs : List Char) :
    unescape? ('\\' :: 'x' :: high :: low :: cs) = (unescape? cs).map (Char.ofNat n :: ·) := by
  rw [unescape?, h]
  cases unescape? cs <;> rfl

theorem unescape?_short {letter c : Char} (h : shortEscape? letter = some c) (hx : letter ≠ 'x')
    (cs : List Char) : unescape? ('\\' :: letter :: cs) = (unescape? cs).map (c :: ·) := by
  have hread : unescape? ('\\' :: letter :: cs) =
      (do some ((← shortEscape? letter) :: (← unescape? cs))) := by
    simp [unescape?, hx]
  rw [hread, h]
  cases unescape? cs <;> rfl

theorem unescape?_plain {c : Char} (hslash : c ≠ '\\') (cs : List Char) :
    unescape? (c :: cs) = (unescape? cs).map (c :: ·) := by
  have hread : unescape? (c :: cs) = (do some (c :: (← unescape? cs))) := by simp [unescape?, hslash]
  rw [hread]
  cases unescape? cs <;> rfl

theorem untilQuote?_escape_cons (c : Char) (cs : List Char) :
    untilQuote? ('\\' :: c :: cs) = (untilQuote? cs).map ('\\' :: c :: ·) := by
  rw [untilQuote?]
  cases untilQuote? cs <;> rfl

theorem untilQuote?_plain {c : Char} (hslash : c ≠ '\\') (hquote : c ≠ '"') (cs : List Char) :
    untilQuote? (c :: cs) = (untilQuote? cs).map (c :: ·) := by
  have hread : untilQuote? (c :: cs) = (do some (c :: (← untilQuote? cs))) := by
    simp [untilQuote?, hslash]
  rw [hread]
  cases untilQuote? cs <;> rfl

/-! ### One character -/

/-- The ways in which a character is written. -/
inductive Written (c : Char) : List Char → Prop
  | short {letter : Char} : shortEscape? letter = some c → letter ≠ 'x' →
      isControl letter = false → Written c ['\\', letter]
  | hex : c.toNat < 256 → Written c ('\\' :: 'x' :: hexPair c.toNat)
  | plain : c ≠ '\\' → c ≠ '"' → isControl c = false → Written c [c]

theorem escapeChar_written (c : Char) : Written c (escapeChar c) := by
  by_cases hshort : c ∈ ['\\', '"', '\n', '\r', '\t']
  · simp only [List.mem_cons, List.not_mem_nil, or_false] at hshort
    rcases hshort with rfl | rfl | rfl | rfl | rfl <;> exact .short rfl (by decide) (by decide)
  · simp only [List.mem_cons, List.not_mem_nil, or_false, not_or] at hshort
    obtain ⟨hslash, hquote, hn, hr, ht⟩ := hshort
    simp only [escapeChar, hslash, hquote, hn, hr, ht, if_false]
    split
    · rename_i hcontrol
      refine .hex ?_
      simp only [isControl, Bool.or_eq_true, decide_eq_true_eq, beq_iff_eq] at hcontrol
      omega
    · rename_i hplain
      exact .plain hslash hquote (by simpa using hplain)

theorem isControl_hexDigit : ∀ n < 16, isControl (hexDigit n) = false := by decide

theorem Written.noControl {c : Char} {cs : List Char} (h : Written c cs) :
    ∀ d ∈ cs, isControl d = false := by
  have hslash : isControl '\\' = false := by decide
  cases h with
  | short _ _ hletter => simp [hslash, hletter]
  | hex _ =>
    have hx : isControl 'x' = false := by decide
    have hhigh := isControl_hexDigit (c.toNat / 16 % 16) (by omega)
    have hlow := isControl_hexDigit (c.toNat % 16) (by omega)
    simp [hexPair, hslash, hx, hhigh, hlow]
  | plain _ _ hplain => simp [hplain]

theorem hexDigit_ne : ∀ n < 16, hexDigit n ≠ '\\' ∧ hexDigit n ≠ '"' := by decide

theorem Written.untilQuote? {c : Char} {cs : List Char} (h : Written c cs) (rest : List Char) :
    untilQuote? (cs ++ rest) = (untilQuote? rest).map (cs ++ ·) := by
  cases h with
  | short _ _ _ => exact untilQuote?_escape_cons _ rest
  | hex _ =>
    obtain ⟨hhigh, hhigh'⟩ := hexDigit_ne (c.toNat / 16 % 16) (by omega)
    obtain ⟨hlow, hlow'⟩ := hexDigit_ne (c.toNat % 16) (by omega)
    simp only [hexPair, List.cons_append, List.nil_append]
    rw [untilQuote?_escape_cons, untilQuote?_plain hhigh hhigh', untilQuote?_plain hlow hlow',
      Option.map_map, Option.map_map]
    rfl
  | plain hslash hquote _ => exact untilQuote?_plain hslash hquote rest

theorem Written.unescape? {c : Char} {cs : List Char} (h : Written c cs) (rest : List Char) :
    unescape? (cs ++ rest) = (unescape? rest).map (c :: ·) := by
  cases h with
  | short hshort hx _ => exact unescape?_short hshort hx rest
  | hex hsmall =>
    have hread := unescape?_hex (valueInBase?_hexPair hsmall) rest
    rwa [Char.ofNat_toNat] at hread
  | plain hslash _ _ => exact unescape?_plain hslash rest

/-! ### Whole texts -/

theorem toList_escape (text : String) : (escape text).toList = text.toList.flatMap escapeChar :=
  String.toList_ofList

theorem isControl_escape (text : String) : ∀ c ∈ (escape text).toList, isControl c = false := by
  intro c hc
  rw [toList_escape] at hc
  obtain ⟨d, _, hc⟩ := List.mem_flatMap.mp hc
  exact (escapeChar_written d).noControl c hc

/-- The written text ends at the first quote that is not part of an escape, whatever follows it. -/
theorem untilQuote?_escape (text : String) (rest : List Char) :
    untilQuote? ((escape text).toList ++ '"' :: rest) = some (escape text).toList := by
  rw [toList_escape]
  induction text.toList with
  | nil => rfl
  | cons c cs ih =>
    rw [List.flatMap_cons, List.append_assoc, (escapeChar_written c).untilQuote?, ih]
    rfl

/-- Undoing the escapes of a written text gives the text. -/
theorem unescape?_escape (text : String) : unescape? (escape text).toList = some text.toList := by
  rw [toList_escape]
  induction text.toList with
  | nil => rfl
  | cons c cs ih =>
    rw [List.flatMap_cons, (escapeChar_written c).unescape?, ih]
    rfl

/-- Reads a text between quotes. What follows the closing quote is not looked at. -/
def readQuoted? : List Char → Option String
  | '"' :: cs => do
    let written ← untilQuote? cs
    (unescape? written).map String.ofList
  | _ => none

theorem readQuoted?_quoted (text : String) : readQuoted? (quoted text).toList = some text := by
  have hlist : (quoted text).toList = '"' :: ((escape text).toList ++ ['"']) := by simp [quoted]
  rw [hlist, readQuoted?, untilQuote?_escape]
  simp [unescape?_escape]

end SchemaTree.Text
