/-!
# Whole numbers as text

`natText` and `intText` write decimal digits. `readInt?` reads an optional sign and at least one
digit, and nothing else; `readNat?` is the reading of unsigned numbers, which refuses a minus sign
even before zero.
-/

namespace SchemaTree.Text

/-! ### Writing -/

def natText (n : Nat) : String := String.ofList (Nat.toDigits 10 n)

/-- The decimal digits of a number, after a minus sign if it is negative. -/
def intText : Int → String
  | .ofNat n => natText n
  | .negSucc n => "-" ++ natText (n + 1)

def hexValue? (c : Char) : Option Nat :=
  if '0' ≤ c ∧ c ≤ '9' then some (c.toNat - '0'.toNat)
  else if 'a' ≤ c ∧ c ≤ 'f' then some (c.toNat - 'a'.toNat + 10)
  else if 'A' ≤ c ∧ c ≤ 'F' then some (c.toNat - 'A'.toNat + 10)
  else none

def octalValue? (c : Char) : Option Nat :=
  if '0' ≤ c ∧ c ≤ '7' then some (c.toNat - '0'.toNat) else none

/-- The lower case hexadecimal digit of a number below 16. -/
def hexDigit (n : Nat) : Char := Nat.digitChar n

/-- The two lower case hexadecimal digits of a number below 256. -/
def hexPair (n : Nat) : List Char := [hexDigit (n / 16 % 16), hexDigit (n % 16)]

/-! ### Reading -/

/-- The value of digits in a base, most significant first; every digit is read with `digit`. -/
def valueInBase? (base : Nat) (digit : Char → Option Nat) (cs : List Char) : Option Nat :=
  cs.foldl (fun n c => n.bind fun n => (digit c).map (base * n + ·)) (some 0)

def decimalValue? (c : Char) : Option Nat :=
  if '0' ≤ c ∧ c ≤ '9' then some (c.toNat - '0'.toNat) else none

def readDigits? (cs : List Char) : Option Nat :=
  if cs.isEmpty then none else valueInBase? 10 decimalValue? cs

def readInt? (text : String) : Option Int :=
  match text.toList with
  | '-' :: cs => (readDigits? cs).map fun n => -(n : Int)
  | '+' :: cs => (readDigits? cs).map Int.ofNat
  | cs => (readDigits? cs).map Int.ofNat

def readNat? (text : String) : Option Nat :=
  match text.toList with
  | '+' :: cs => readDigits? cs
  | cs => readDigits? cs

end SchemaTree.Text
