import SchemaTree.Failure
import SchemaTree.Pool.Link

/-!
# Snapshots of linked files

A snapshot takes what is shown of a linked file: fields by ascending number, values of enums by
ascending number, and the default of every field. It fails only for messages nested too deeply, which
`limit` levels are not, and for an enum default that names no value.
-/

namespace SchemaTree.Snapshot

open Descriptor
open Pool (Declaration Scalar Value)
open Schema (DefaultValue Dialect Kind)

/-- How deeply messages may be nested; a message of a file itself is at level one. -/
def limit : Nat := 1000

/-! ### Order of fields -/

/-- Inserts a field before the first one of a greater number. -/
def insertField (field : Field) : List Field → List Field
  | [] => [field]
  | f :: fs => if field.number ≤ f.number then field :: f :: fs else f :: insertField field fs

def orderedFields (fields : List Field) : List Field := fields.foldr insertField []

/-! ### Fields -/

def isPacked (dialect : Dialect) (f : Field) : Bool := (⟨f, dialect, false⟩ : Options.Slot).isPacked

/-- Whether a field is shown as optional: in proto3 if it is declared so, in proto2 also if it is
neither required nor repeated nor in a choice. -/
def isOptional (dialect : Dialect) (f : Field) : Bool :=
  f.isProto3Optional || (dialect = .proto2 && f.label = .optional && f.oneofIndex.isNone)

/-- The kind that a field is shown with; a group has none of its own. -/
def kind (f : Field) : Kind :=
  match f.typeCode with
  | 1 => .double
  | 2 => .float
  | 3 => .int64
  | 4 => .uint64
  | 5 => .int32
  | 6 => .fixed64
  | 7 => .fixed32
  | 8 => .bool
  | 9 => .string
  | 11 => .message
  | 12 => .bytes
  | 13 => .uint32
  | 14 => .enum
  | 15 => .sfixed32
  | 16 => .sfixed64
  | 17 => .sint32
  | 18 => .sint64
  | _ => .unknown

/-- The full name of the message or enum that a field holds; a group has none. -/
def typeName? (f : Field) : Option String :=
  if f.typeCode = messageCode ∨ f.typeCode = enumCode then some (referent f.typeName) else none

/-- The default that a scalar value is shown as. -/
def scalarDefault : Scalar → DefaultValue
  | .bool v => .bool v
  | .int32 v => .int32 v
  | .int64 v => .int64 v
  | .uint32 v => .uint32 v
  | .uint64 v => .uint64 v
  | .float v => .float v
  | .double v => .double v
  | .string v => .string v
  | .bytes v => .bytes v

/-- The default that a number is shown as in a field that holds an enum. Only the number of a named value
has been kept; the name that is shown is looked up for it again. -/
def enumDefault (ds : List Declaration) (file fullName : String) (f : Field) (number : Int) :
    Except Failure DefaultValue :=
  match Pool.enum? ds (referent f.typeName) with
  | none => .error (.unresolved file fullName "enum default on a non-enum field")
  | some e =>
    match Pool.numberedValue? e number with
    | some value => .ok (.enum value.name (.ofInt number))
    | none => .error <| .unresolved file fullName <|
        "enum " ++ referent f.typeName ++ " has no value " ++ Text.intText number

/-- The value of a field that is shown as its default. Nothing that a repeated field declares counts. -/
def value (ds : List Declaration) (f : Field) : Value :=
  if f.label = .repeated then Pool.impliedValue ds f else Pool.defaultValue ds f

/-- The default that a field is shown with; fields that hold messages have none. -/
def default (ds : List Declaration) (file fullName : String) (f : Field) : Except Failure DefaultValue :=
  match value ds f with
  | .scalar v => .ok (scalarDefault v)
  | .enum number => enumDefault ds file fullName f number
  | .message => .ok .absent

def field (ds : List Declaration) (file scope : String) (dialect : Dialect) (f : Field) :
    Except Failure Schema.Field := do
  let defaultValue ← default ds file (qualify scope f.name) f
  pure {
    name := f.name
    number := .ofNat f.number.toNat
    kind := kind f
    isOptional := isOptional dialect f
    isPacked := isPacked dialect f
    defaultValue
    typeName := typeName? f }

/-! ### Enums and services -/

def enum (e : Enum) : Schema.Enum where
  name := e.name
  values := (Pool.orderedValues e.values).map fun v => ⟨v.name, .ofInt v.number⟩

/-- The short name of a message that a reference stands for. -/
def shortName (ds : List Declaration) (reference : String) : String :=
  ((Pool.message? ds (referent reference)).map (·.name)).getD ""

def service (ds : List Declaration) (s : Service) : Schema.Service where
  name := s.name
  methods := s.methods.map fun m => {
    name := m.name
    input := shortName ds m.input
    output := shortName ds m.output
    clientStreaming := m.clientStreaming
    serverStreaming := m.serverStreaming }

/-! ### Messages -/

mutual

def message (ds : List Declaration) (file : String) (dialect : Dialect) (scope : String) (level : Nat) :
    Message → Except Failure Schema.Message
  | ⟨name, fields, _, messages, enums, _, _, _, _, _⟩ => do
    let fullName := qualify scope name
    -- The level is checked before the fields and before the messages nested in this one.
    if limit < level then throw (.tooDeep file fullName limit)
    let fields ← (orderedFields fields).mapM (field ds file fullName dialect)
    let messages ← messageList ds file dialect fullName (level + 1) messages
    pure { name, fullName, fields, messages, enums := enums.map enum }

def messageList (ds : List Declaration) (file : String) (dialect : Dialect) (scope : String)
    (level : Nat) : List Message → Except Failure (List Schema.Message)
  | [] => .ok []
  | m :: ms => do
    let first ← message ds file dialect scope level m
    let rest ← messageList ds file dialect scope level ms
    pure (first :: rest)

end

mutual

/-- The full names of a message and those nested in it, with their levels of nesting. -/
def levels (scope : String) (level : Nat) : Message → List (String × Nat)
  | ⟨name, _, _, messages, _, _, _, _, _, _⟩ =>
    (qualify scope name, level) :: levelsList (qualify scope name) (level + 1) messages

/-- The full names of messages and those nested in them, with their levels of nesting. -/
def levelsList (scope : String) (level : Nat) : List Message → List (String × Nat)
  | [] => []
  | m :: ms => levels scope level m ++ levelsList scope level ms

end

/-- The full names of the messages that a snapshot of a file takes up, in order: all before the first
that is nested too deeply. -/
def visited (file : File) : List String :=
  ((levelsList file.package 1 file.messages).takeWhile fun (_, level) => level ≤ limit).map (·.1)

/-! ### Files -/

/-- The snapshot of a file linked with some declarations. -/
def file (ds : List Declaration) (f : File) : Except Failure Schema.File := do
  let dialect := Pool.dialectOf f
  let messages ← messageList ds f.name dialect f.package 1 f.messages
  pure {
    name := f.name
    dialect
    package := f.package
    imports := f.imports
    messages
    enums := f.enums.map enum
    services := f.services.map (service ds) }

end SchemaTree.Snapshot
