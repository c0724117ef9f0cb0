import SchemaTree.Schema.Default
import SchemaTree.Schema.Kind

/-!
# Schema files

The snapshot of a schema file that is kept and shown: its messages with their fields, its enums and
its services. Every reference to another declaration has been looked up, so a field names the message
or enum it holds by full name, and a method names its messages by their short names.
-/

namespace SchemaTree.Schema

inductive Dialect
  | proto2
  | proto3
deriving DecidableEq, Repr, Inhabited

def Dialect.token : Dialect → String
  | proto2 => "proto2"
  | proto3 => "proto3"

structure Field where
  name : String
  number : UInt32
  kind : Kind
  /-- Shown as optional: declared so, outside any choice. -/
  isOptional : Bool
  /-- Repeated values are stored packed. -/
  isPacked : Bool
  defaultValue : DefaultValue
  /-- The full name of the message or enum that the field holds. -/
  typeName : Option String
deriving DecidableEq, Repr, Inhabited

/-- A field of a kind with the zero of that kind for a default. Enums, messages and unknown kinds have no
default until one is given. -/
def Field.new (name : String) (number : UInt32) (kind : Kind) : Field where
  name
  number
  kind
  isOptional := false
  isPacked := false
  defaultValue := match kind with
    | .double => .double 0
    | .float => .float 0
    | .int32 | .sint32 | .sfixed32 => .int32 0
    | .int64 | .sint64 | .sfixed64 => .int64 0
    | .uint32 | .fixed32 => .uint32 0
    | .uint64 | .fixed64 => .uint64 0
    | .bool => .bool false
    | .string => .string ""
    | .bytes => .bytes []
    | .enum | .message | .unknown => .absent
  typeName := none

structure EnumValue where
  name : String
  number : Int32
deriving DecidableEq, Repr, Inhabited

/-- An enum with its values in the order in which they are shown. -/
structure Enum where
  name : String
  values : List EnumValue
deriving DecidableEq, Repr, Inhabited

/-- A message with its fields and the declarations nested in it. -/
structure Message where
  name : String
  /-- The name with package and enclosing messages. -/
  fullName : String
  /-- The fields in the order in which they are shown. -/
  fields : List Field
  messages : List Message
  enums : List Enum
deriving Repr, Inhabited

namespace Message

mutual

def decEq : (a b : Message) → Decidable (a = b)
  | ⟨n, q, fs, ms, es⟩, ⟨n', q', fs', ms', es'⟩ =>
    match decEqList ms ms' with
    | isFalse h => isFalse fun e => h (by injection e)
    | isTrue h =>
      if h' : n = n' ∧ q = q' ∧ fs = fs' ∧ es = es' then
        isTrue (by obtain ⟨h₁, h₂, h₃, h₄⟩ := h'; rw [h₁, h₂, h₃, h, h₄])
      else isFalse fun e => h' (by injection e; exact ⟨‹_›, ‹_›, ‹_›, ‹_›⟩)

def decEqList : (a b : List Message) → Decidable (a = b)
  | [], [] => isTrue rfl
  | [], _ :: _ => isFalse (by simp)
  | _ :: _, [] => isFalse (by simp)
  | a :: as, b :: bs =>
    match decEq a b, decEqList as bs with
    | isTrue h, isTrue h' => isTrue (by rw [h, h'])
    | isFalse h, _ => isFalse fun e => h (by injection e)
    | _, isFalse h => isFalse fun e => h (by injection e)

end

instance : DecidableEq Message := decEq

end Message

/-- A method of a service, with the short names of its messages. -/
structure Method where
  name : String
  input : String
  output : String
  clientStreaming : Bool
  serverStreaming : Bool
deriving DecidableEq, Repr, Inhabited

structure Service where
  name : String
  methods : List Method
deriving DecidableEq, Repr, Inhabited

structure File where
  name : String
  dialect : Dialect
  package : String
  /-- The names of the imported files. -/
  imports : List String
  messages : List Message
  enums : List Enum
  services : List Service
deriving DecidableEq, Repr, Inhabited

end SchemaTree.Schema
