import SchemaTree.Descriptor.Options

/-!
# Declared files

A file as its author declared it: names of types are kept as written, defaults are texts, and
everything is in the order of declaration. A descriptor set is a list of such files.
-/

namespace SchemaTree.Descriptor

inductive Label
  | optional
  | required
  | repeated
deriving DecidableEq, Repr, Inhabited

structure Field where
  name : String := ""
  number : Int := 0
  label : Label := .optional
  /-- The type code, 0 if the named type decides. -/
  typeCode : Int := 0
  /-- The name of a message or enum, with a leading dot if it is a full name. -/
  typeName : String := ""
  /-- The message that an extension extends. -/
  extendee : Option String := none
  defaultText : Option String := none
  oneofIndex : Option Int := none
  jsonName : Option String := none
  options : Option Options := none
  /-- Declared `optional` in a proto3 file. -/
  isProto3Optional : Bool := false
deriving DecidableEq, Repr, Inhabited

structure Oneof where
  name : String := ""
  options : Option Options := none
deriving DecidableEq, Repr, Inhabited

structure Range where
  first : Int := 0
  /-- The first number after the range; in an enum the last number of it. -/
  stop : Int := 0
deriving DecidableEq, Repr, Inhabited

structure ExtensionRange extends Range where
  options : Option Options := none
deriving DecidableEq, Repr, Inhabited

structure EnumValue where
  name : String := ""
  number : Int := 0
  options : Option Options := none
deriving DecidableEq, Repr, Inhabited

structure Enum where
  name : String := ""
  values : List EnumValue := []
  options : Option Options := none
  reservedRanges : List Range := []
  reservedNames : List String := []
deriving DecidableEq, Repr, Inhabited

structure Message where
  name : String := ""
  fields : List Field := []
  extensions : List Field := []
  messages : List Message := []
  enums : List Enum := []
  extensionRanges : List ExtensionRange := []
  oneofs : List Oneof := []
  options : Option Options := none
  reservedRanges : List Range := []
  reservedNames : List String := []
deriving Repr, Inhabited

structure Method where
  name : String := ""
  input : String := ""
  output : String := ""
  options : Option Options := none
  clientStreaming : Bool := false
  serverStreaming : Bool := false
deriving DecidableEq, Repr, Inhabited

structure Service where
  name : String := ""
  methods : List Method := []
  options : Option Options := none
deriving DecidableEq, Repr, Inhabited

structure File where
  name : String := ""
  package : String := ""
  imports : List String := []
  /-- Positions among the imports of those passed on to importers. -/
  publicImports : List Int := []
  weakImports : List Int := []
  messages : List Message := []
  enums : List Enum := []
  services : List Service := []
  extensions : List Field := []
  options : Option Options := none
  /-- The word for the dialect; none means proto2. -/
  dialect : Option String := none
deriving Repr, Inhabited

end SchemaTree.Descriptor
