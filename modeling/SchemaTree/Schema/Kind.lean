/-!
# Kinds of fields

The kind of a field is its scalar type, or that it holds an enum or a message. Groups, and type codes
that stand for nothing, have the kind `unknown`.
-/

namespace SchemaTree.Schema

inductive Kind
  | double | float
  | int32 | int64 | uint32 | uint64 | sint32 | sint64
  | fixed32 | fixed64 | sfixed32 | sfixed64
  | bool | string | bytes
  | enum | message | unknown
deriving DecidableEq, Repr, Inhabited

namespace Kind

def token : Kind → String
  | double => "double"
  | float => "float"
  | int32 => "int32"
  | int64 => "int64"
  | uint32 => "uint32"
  | uint64 => "uint64"
  | sint32 => "sint32"
  | sint64 => "sint64"
  | fixed32 => "fixed32"
  | fixed64 => "fixed64"
  | sfixed32 => "sfixed32"
  | sfixed64 => "sfixed64"
  | bool => "bool"
  | string => "string"
  | bytes => "bytes"
  | enum => "enum"
  | message => "message"
  | unknown => "unknown"

/-- The kind of a type code of a descriptor; groups (code 10) are `unknown`. -/
def ofCode : Int → Kind
  | 1 => double
  | 2 => float
  | 3 => int64
  | 4 => uint64
  | 5 => int32
  | 6 => fixed64
  | 7 => fixed32
  | 8 => bool
  | 9 => string
  | 11 => message
  | 12 => bytes
  | 13 => uint32
  | 14 => enum
  | 15 => sfixed32
  | 16 => sfixed64
  | 17 => sint32
  | 18 => sint64
  | _ => unknown

end Kind
end SchemaTree.Schema
