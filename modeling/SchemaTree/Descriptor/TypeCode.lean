import SchemaTree.Wire

/-!
# Type codes

The type of a field is a number from 1 to 18. A code says which values a field takes and in which form
they are on the wire.
-/

namespace SchemaTree.Descriptor

/-! ### Codes -/

/-- The type code of doubles, which also stands for a missing or unknown code. -/
def doubleCode : Int := 1

def floatCode : Int := 2

def int64Code : Int := 3

def uint64Code : Int := 4

def boolCode : Int := 8

def textCode : Int := 9

def bytesCode : Int := 12

def groupCode : Int := 10

def messageCode : Int := 11

def enumCode : Int := 14

/-- The type code of a field without named type; the codes that need one are refused. -/
def scalarCode? (code : Int) : Option Int :=
  if code = groupCode ∨ code = messageCode ∨ code = enumCode then none
  else if 1 ≤ code ∧ code ≤ 18 then some code
  else some doubleCode

def codeOfWord? : String → Option Int
  | "double" => some 1
  | "float" => some 2
  | "int64" => some 3
  | "uint64" => some 4
  | "int32" => some 5
  | "fixed64" => some 6
  | "fixed32" => some 7
  | "bool" => some 8
  | "string" => some 9
  | "bytes" => some 12
  | "uint32" => some 13
  | "sfixed32" => some 15
  | "sfixed64" => some 16
  | "sint32" => some 17
  | "sint64" => some 18
  | _ => none

/-! ### Integers -/

/-- The least and the greatest number of an integer type. -/
def integerBounds? : Int → Option (Int × Int)
  | 5 | 15 | 17 => some (Width.least 32, Width.greatest 32)
  | 3 | 16 | 18 => some (Width.least 64, Width.greatest 64)
  | 7 | 13 => some (0, Width.greatestUnsigned 32)
  | 4 | 6 => some (0, Width.greatestUnsigned 64)
  | _ => none

/-- The wire value of a number of an integer type or an enum. -/
def integerValue (code n : Int) : Wire.Value :=
  match code with
  | 17 | 18 => .varint (Wire.zigzag n)
  | 6 | 16 => .fixed64 (Wire.ofInt n)
  | 7 | 15 => .fixed32 (n % (Width.size 32 : Int)).toNat
  | _ => .varint (Wire.ofInt n)

/-- A varint cut to the width of its type: flags to 0 or 1, and numbers of 32 bits to 32 bits. -/
def narrowVarint (code : Int) (v : Nat) : Nat :=
  match code with
  | 8 => if v = 0 then 0 else 1
  | 5 | 14 => Wire.ofInt (Wire.int32 v)
  | 13 | 17 => v % Width.size 32
  | _ => v

/-! ### Forms on the wire -/

/-- The form of the values of a type on the wire. -/
inductive Form
  | varint
  | fixed64
  | fixed32
  | text
  | bytes
  | message
  | group
deriving DecidableEq, Repr

def Form.ofCode : Int → Form
  | 1 | 6 | 16 => fixed64
  | 2 | 7 | 15 => fixed32
  | 9 => text
  | 10 => group
  | 11 => message
  | 12 => bytes
  | _ => varint

/-- Whether repeated values of a form can be packed into one. -/
def Form.isPackable : Form → Bool
  | varint | fixed64 | fixed32 => true
  | text | bytes | message | group => false

def Form.zero : Form → Wire.Value
  | varint => .varint 0
  | fixed64 => .fixed64 0
  | fixed32 => .fixed32 0
  | text | bytes | message => .bytes []
  | group => .group [] 1

end SchemaTree.Descriptor
