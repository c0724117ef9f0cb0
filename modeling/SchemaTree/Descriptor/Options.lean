import SchemaTree.Wire

/-!
# Options of declarations

Each kind of declaration has an options message. Its known options are numbers and texts; an option
that a source file sets is first kept uninterpreted, as the parts of its name and a value whose
meaning depends on the type of the option.
-/

namespace SchemaTree.Descriptor

/-! ### Options messages -/

/-- A kind of declaration that can have options. -/
inductive Target
  | file | message | field | oneof | enum | enumValue | extensionRange | service | method
deriving DecidableEq, Repr, Inhabited

/-- The full name of the options message of a kind of declaration. -/
def Target.messageName : Target → String
  | file => "google.protobuf.FileOptions"
  | message => "google.protobuf.MessageOptions"
  | field => "google.protobuf.FieldOptions"
  | oneof => "google.protobuf.OneofOptions"
  | enum => "google.protobuf.EnumOptions"
  | enumValue => "google.protobuf.EnumValueOptions"
  | extensionRange => "google.protobuf.ExtensionRangeOptions"
  | service => "google.protobuf.ServiceOptions"
  | method => "google.protobuf.MethodOptions"

inductive OptionType
  | bool
  | enum
  | text
deriving DecidableEq, Repr

/-- The numbers and types of the known options of a kind of declaration, by ascending number. -/
def Target.known : Target → List (Nat × OptionType)
  | file => [(1, .text), (8, .text), (9, .enum), (10, .bool), (11, .text), (16, .bool), (17, .bool),
      (18, .bool), (20, .bool), (23, .bool), (27, .bool), (31, .bool), (36, .text), (37, .text),
      (39, .text), (40, .text), (41, .text), (42, .bool), (44, .text), (45, .text)]
  | message => [(1, .bool), (2, .bool), (3, .bool), (7, .bool)]
  | field => [(1, .enum), (2, .bool), (3, .bool), (5, .bool), (6, .enum), (10, .bool)]
  | enum => [(2, .bool), (3, .bool)]
  | enumValue => [(1, .bool)]
  | service => [(33, .bool)]
  | method => [(33, .bool), (34, .enum)]
  | oneof | extensionRange => []

/-- The number of the list of uninterpreted options in every options message. -/
def uninterpretedNumber : Nat := 999

/-- The number of the option that marks a message as the entry of a map. -/
def mapEntryNumber : Nat := 7

/-- The number of the option that lets an enum give one number to several values. -/
def allowAliasNumber : Nat := 2

/-- The number of the option that says whether a field is packed. -/
def packedNumber : Nat := 2

def keyNumber : Nat := 1

/-- A part of the name of an option; an extension is named in parentheses. -/
structure NamePart where
  text : String := ""
  isExtension : Bool := false
deriving DecidableEq, Repr, Inhabited

/-- An option whose meaning has not been looked up; at most one of the values is expected. -/
structure UninterpretedOption where
  name : List NamePart := []
  identifier : Option String := none
  /-- A number from 0 to `2 ^ 64 - 1`. -/
  positiveInt : Option Nat := none
  negativeInt : Option Int := none
  /-- The bits of a double. -/
  double : Option Nat := none
  string : Option Bytes := none
  /-- The text between the braces of a message literal. -/
  aggregate : Option String := none
deriving DecidableEq, Repr, Inhabited

structure Options where
  /-- Known options by number, each at most once. -/
  known : List (Nat × Wire.Value) := []
  uninterpreted : List UninterpretedOption := []
deriving DecidableEq, Repr, Inhabited

namespace Options

/-- The value of a known option as a flag, false if it is not set. -/
def flag (options : Options) (number : Nat) : Bool :=
  match options.known.lookup number with
  | some (.varint v) => v != 0
  | _ => false

def set (options : Options) (number : Nat) (value : Wire.Value) : Options :=
  { options with known := options.known.filter (·.1 != number) ++ [(number, value)] }

def ofFlag (number : Nat) : Options := ({} : Options).set number (.varint 1)

end Options

/-! ### Writing -/

def optionalField (number : Nat) (value : Option α) (write : α → Wire.Value) : List Wire.Field :=
  match value with
  | some v => [⟨number, write v⟩]
  | none => []

def textValue (s : String) : Wire.Value := .bytes (Wire.textBytes s)

def flagValue (b : Bool) : Wire.Value := .varint (if b then 1 else 0)

def NamePart.bytes (part : NamePart) : Bytes :=
  Wire.bytesOf [⟨1, textValue part.text⟩, ⟨2, flagValue part.isExtension⟩]

def UninterpretedOption.bytes (o : UninterpretedOption) : Bytes :=
  Wire.bytesOf <|
    (o.name.map fun part => ⟨2, .bytes part.bytes⟩) ++
    optionalField 3 o.identifier textValue ++
    optionalField 4 o.positiveInt .varint ++
    optionalField 5 o.negativeInt (.varint <| Wire.ofInt ·) ++
    optionalField 6 o.double .fixed64 ++
    optionalField 7 o.string .bytes ++
    optionalField 8 o.aggregate textValue

/-- The bytes of an options message: the known options by ascending number, then the uninterpreted
ones. -/
def Options.bytes (target : Target) (options : Options) : Bytes :=
  Wire.bytesOf <|
    (target.known.filterMap fun (number, _) => (options.known.lookup number).map (⟨number, ·⟩)) ++
    options.uninterpreted.map fun o => ⟨uninterpretedNumber, .bytes o.bytes⟩

end SchemaTree.Descriptor
