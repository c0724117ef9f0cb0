import SchemaTree.Descriptor.Basic
import SchemaTree.Ieee
import SchemaTree.Token.Reader

/-!
# Reading defaults

The default of a field is declared as text, which the type of the field says how to read. The values
of an enum are kept by ascending number; `Enum.insertValue` places equal numbers where a binary
search ends, and the value that a number stands for is found by the same search.
-/

namespace SchemaTree.Pool

open Descriptor

/-! ### The order of the values of an enum -/

/-- The last place from `base` on, among `size` places, that a binary search for a number ends at. Which of
several equal numbers it finds is left open by standard libraries; this is the search of one of them. -/
def searchBase (values : List EnumValue) (number : Int) : (fuel base size : Nat) → Nat
  | 0, base, _ => base
  | fuel + 1, base, size =>
    if size ≤ 1 then base
    else
      let middle := base + size / 2
      let isGreater := values[middle]?.any (number < ·.number)
      searchBase values number fuel (if isGreater then base else middle) (size - size / 2)

def searchPlace (values : List EnumValue) (number : Int) : Nat :=
  searchBase values number values.length 0 values.length

def valueOfNumber? (values : List EnumValue) (number : Int) : Option EnumValue :=
  values[searchPlace values number]?.filter (·.number = number)

/-- Inserts a value: before the value of the same number that a binary search finds, or between the
values of smaller and of greater numbers. -/
def insertValue (values : List EnumValue) (value : EnumValue) : List EnumValue :=
  let place := searchPlace values value.number
  let place := if values[place]?.any (·.number < value.number) then place + 1 else place
  values.take place ++ value :: values.drop place

def orderedValues (values : List EnumValue) : List EnumValue := values.foldl insertValue []

/-! ### Bytes as text -/

/-- The value of two hexadecimal digits; the first may be a plus sign. -/
def hexPair? (c d : Char) : Option Nat :=
  if c = '+' then Text.hexValue? d else Text.valueInBase? 16 Text.hexValue? [c, d]

/-- Reads the bytes that a text with escapes stands for. At most `fuel` characters are read. -/
def readEscapedWithin? : (fuel : Nat) → List Char → Option Bytes
  | _, [] => some []
  | 0, _ => none
  | fuel + 1, '\\' :: c :: rest =>
    if c = 'x' ∨ c = 'X' then
      match rest with
      | d :: e :: rest => do
        let n ← hexPair? d e
        some (n.toUInt8 :: (← readEscapedWithin? fuel rest))
      | _ => none
    else
      -- Up to three octal digits; if there is none, a letter stands for one character.
      let digits := Token.upTo 3 (Text.octalValue? · |>.isSome) (c :: rest)
      if digits.isEmpty then do
        let d ← Token.simpleEscape? c
        some (d.toNat.toUInt8 :: (← readEscapedWithin? fuel rest))
      else do
        let n ← Text.valueInBase? 8 Text.octalValue? digits
        some (n.toUInt8 :: (← readEscapedWithin? fuel ((c :: rest).drop digits.length)))
  | _, ['\\'] => none
  | fuel + 1, c :: rest => do
    some (Wire.textBytes (String.singleton c) ++ (← readEscapedWithin? fuel rest))

def readEscaped? (text : String) : Option Bytes :=
  let cs := text.toList
  readEscapedWithin? cs.length cs

/-! ### Values -/

/-- A value of a scalar type, a floating point value as its bits. -/
inductive Scalar
  | bool (value : Bool)
  | int32 (value : Int32)
  | int64 (value : Int64)
  | uint32 (value : UInt32)
  | uint64 (value : UInt64)
  | float (bits : UInt32)
  | double (bits : UInt64)
  | string (value : String)
  | bytes (value : Bytes)
deriving DecidableEq, Repr

/-- A value of a field; of an enum it is a number, and of messages nothing is kept. -/
inductive Value
  | scalar (value : Scalar)
  | enum (number : Int)
  | message
deriving DecidableEq, Repr

/-- The value of a scalar type code that was not set; other codes have none. -/
def Scalar.zero? : (code : Int) → Option Scalar
  | 1 => some (.double 0)
  | 2 => some (.float 0)
  | 3 | 16 | 18 => some (.int64 0)
  | 5 | 15 | 17 => some (.int32 0)
  | 4 | 6 => some (.uint64 0)
  | 7 | 13 => some (.uint32 0)
  | 8 => some (.bool false)
  | 9 => some (.string "")
  | 12 => some (.bytes [])
  | _ => none

/-! ### Declared values -/

def within? (low high n : Int) : Option Int := if low ≤ n ∧ n ≤ high then some n else none

/-- Reads the default of a field with a scalar type code. -/
def scalarDefault? (code : Int) (text : String) : Option Scalar :=
  match code with
  | 1 => (Ieee.read? Ieee.binary64 text).map fun bits => .double (.ofNat bits)
  | 2 => (Ieee.read? Ieee.binary32 text).map fun bits => .float (.ofNat bits)
  | 3 | 16 | 18 => do
    let n ← within? (Width.least 64) (Width.greatest 64) (← Text.readInt? text)
    some (.int64 (.ofInt n))
  | 5 | 15 | 17 => do
    let n ← within? (Width.least 32) (Width.greatest 32) (← Text.readInt? text)
    some (.int32 (.ofInt n))
  | 4 | 6 => do
    let n ← within? 0 (Width.greatestUnsigned 64) (← Text.readNat? text)
    some (.uint64 (.ofNat n.toNat))
  | 7 | 13 => do
    let n ← within? 0 (Width.greatestUnsigned 32) (← Text.readNat? text)
    some (.uint32 (.ofNat n.toNat))
  | 8 => if text = "true" then some (.bool true) else if text = "false" then some (.bool false) else none
  | 9 => some (.string text)
  | 12 => (readEscaped? text).map .bytes
  | _ => none

/-- The number of the value that a default of an enum names. -/
def namedNumber? (e : Enum) (text : String) : Option Int :=
  (e.values.find? (·.name = text)).map (·.number)

/-- The value of an enum that stands for a number. -/
def numberedValue? (e : Enum) (number : Int) : Option EnumValue :=
  valueOfNumber? (orderedValues e.values) number

end SchemaTree.Pool
