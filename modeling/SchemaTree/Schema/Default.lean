import SchemaTree.Ieee
import SchemaTree.Text.Integer

/-!
# Default values

The value a field has when nothing is set. A default written in a schema and the zero of a type are
kept alike; fields that hold messages have none. Floating point defaults are kept as bit patterns, so
that two defaults are equal exactly if they are the same value, sign of zero included.
-/

namespace SchemaTree.Schema

inductive DefaultValue
  | absent
  | bool (value : Bool)
  | int32 (value : Int32)
  | int64 (value : Int64)
  | uint32 (value : UInt32)
  | uint64 (value : UInt64)
  | float (bits : UInt32)
  | double (bits : UInt64)
  | string (value : String)
  | bytes (value : List UInt8)
  | enum (name : String) (number : Int32)
deriving DecidableEq, Repr, Inhabited

namespace DefaultValue

def isAbsent : DefaultValue → Bool
  | absent => true
  | _ => false

/-- Bytes as decimal numbers in brackets, with blanks between them. -/
def bytesText (bytes : List UInt8) : String :=
  "[" ++ String.intercalate " " (bytes.map fun b => Text.natText b.toNat) ++ "]"

/-- The plain text of a default; an enum default is its name, and no default is no text. -/
def text : DefaultValue → String
  | absent => ""
  | bool true => "true"
  | bool false => "false"
  | int32 v => Text.intText v.toInt
  | int64 v => Text.intText v.toInt
  | uint32 v => Text.natText v.toNat
  | uint64 v => Text.natText v.toNat
  | float v => Ieee.text Ieee.binary32 v.toNat
  | double v => Ieee.text Ieee.binary64 v.toNat
  | string v => v
  | bytes v => bytesText v
  | enum name _ => name

end DefaultValue

end SchemaTree.Schema
