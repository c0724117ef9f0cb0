import SchemaTree.Descriptor.Basic

/-!
# Writing descriptor sets

A descriptor set is written message by message, each as its fields by ascending number. What has its
default is left out, apart from names, numbers, labels and type codes. The known options of an options
message come in the order in which they are kept. For each kind of message `wireFields` gives the fields
and `encoded` their bytes.
-/

namespace SchemaTree.Descriptor

/-! ### Fields of messages on the wire -/

def numberValue (n : Int) : Wire.Value := .varint (Wire.ofInt n)

/-- The field of a text that is left out if it is empty. -/
def textField (number : Nat) (s : String) : List Wire.Field :=
  if s = "" then [] else [⟨number, textValue s⟩]

/-- The field of a flag that is left out if it is false. -/
def flagField (number : Nat) (b : Bool) : List Wire.Field :=
  if b then [⟨number, flagValue true⟩] else []

def embeddedFields (number : Nat) (encoded : α → Bytes) (xs : List α) : List Wire.Field :=
  xs.map fun x => ⟨number, .bytes (encoded x)⟩

def textFields (number : Nat) (texts : List String) : List Wire.Field :=
  texts.map fun s => ⟨number, textValue s⟩

def numberFields (number : Nat) (ns : List Int) : List Wire.Field :=
  ns.map fun n => ⟨number, numberValue n⟩

/-! ### Options -/

def Options.wireFields (options : Options) : List Wire.Field :=
  (options.known.map fun (number, value) => ⟨number, value⟩) ++
    embeddedFields uninterpretedNumber UninterpretedOption.bytes options.uninterpreted

def Options.encoded (options : Options) : Bytes := Wire.bytesOf options.wireFields

def optionsField (number : Nat) (options : Option Options) : List Wire.Field :=
  embeddedFields number Options.encoded options.toList

/-! ### Declarations -/

def Label.code : Label → Int
  | optional => 1
  | required => 2
  | repeated => 3

def Field.wireFields (d : Field) : List Wire.Field :=
  [⟨1, textValue d.name⟩] ++ optionalField 2 d.extendee textValue ++
    [⟨3, numberValue d.number⟩, ⟨4, numberValue d.label.code⟩, ⟨5, numberValue d.typeCode⟩] ++
    textField 6 d.typeName ++ optionalField 7 d.defaultText textValue ++ optionsField 8 d.options ++
    optionalField 9 d.oneofIndex numberValue ++ optionalField 10 d.jsonName textValue ++
    flagField 17 d.isProto3Optional

def Field.encoded (d : Field) : Bytes := Wire.bytesOf d.wireFields

def Oneof.wireFields (d : Oneof) : List Wire.Field :=
  [⟨1, textValue d.name⟩] ++ optionsField 2 d.options

def Oneof.encoded (d : Oneof) : Bytes := Wire.bytesOf d.wireFields

def Range.wireFields (d : Range) : List Wire.Field :=
  [⟨1, numberValue d.first⟩, ⟨2, numberValue d.stop⟩]

def Range.encoded (d : Range) : Bytes := Wire.bytesOf d.wireFields

def ExtensionRange.wireFields (d : ExtensionRange) : List Wire.Field :=
  [⟨1, numberValue d.first⟩, ⟨2, numberValue d.stop⟩] ++ optionsField 3 d.options

def ExtensionRange.encoded (d : ExtensionRange) : Bytes := Wire.bytesOf d.wireFields

def EnumValue.wireFields (d : EnumValue) : List Wire.Field :=
  [⟨1, textValue d.name⟩, ⟨2, numberValue d.number⟩] ++ optionsField 3 d.options

def EnumValue.encoded (d : EnumValue) : Bytes := Wire.bytesOf d.wireFields

def Enum.wireFields (d : Enum) : List Wire.Field :=
  [⟨1, textValue d.name⟩] ++ embeddedFields 2 EnumValue.encoded d.values ++ optionsField 3 d.options ++
    embeddedFields 4 Range.encoded d.reservedRanges ++ textFields 5 d.reservedNames

def Enum.encoded (d : Enum) : Bytes := Wire.bytesOf d.wireFields

mutual

def Message.wireFields : Message → List Wire.Field
  | ⟨name, fields, extensions, messages, enums, extensionRanges, oneofs, options, reservedRanges,
      reservedNames⟩ =>
    [⟨1, textValue name⟩] ++ embeddedFields 2 Field.encoded fields ++ Message.nestedFields messages ++
      embeddedFields 4 Enum.encoded enums ++ embeddedFields 5 ExtensionRange.encoded extensionRanges ++
      embeddedFields 6 Field.encoded extensions ++ optionsField 7 options ++
      embeddedFields 8 Oneof.encoded oneofs ++ embeddedFields 9 Range.encoded reservedRanges ++
      textFields 10 reservedNames

def Message.nestedFields : List Message → List Wire.Field
  | [] => []
  | m :: ms => ⟨3, .bytes (Wire.bytesOf (Message.wireFields m))⟩ :: Message.nestedFields ms

end

def Message.encoded (d : Message) : Bytes := Wire.bytesOf d.wireFields

def Method.wireFields (d : Method) : List Wire.Field :=
  [⟨1, textValue d.name⟩, ⟨2, textValue d.input⟩, ⟨3, textValue d.output⟩] ++ optionsField 4 d.options ++
    flagField 5 d.clientStreaming ++ flagField 6 d.serverStreaming

def Method.encoded (d : Method) : Bytes := Wire.bytesOf d.wireFields

def Service.wireFields (d : Service) : List Wire.Field :=
  [⟨1, textValue d.name⟩] ++ embeddedFields 2 Method.encoded d.methods ++ optionsField 3 d.options

def Service.encoded (d : Service) : Bytes := Wire.bytesOf d.wireFields

def File.wireFields (d : File) : List Wire.Field :=
  [⟨1, textValue d.name⟩] ++ textField 2 d.package ++ textFields 3 d.imports ++
    embeddedFields 4 Message.encoded d.messages ++ embeddedFields 5 Enum.encoded d.enums ++
    embeddedFields 6 Service.encoded d.services ++ embeddedFields 7 Field.encoded d.extensions ++
    optionsField 8 d.options ++ numberFields 10 d.publicImports ++ numberFields 11 d.weakImports ++
    optionalField 12 d.dialect textValue

def File.encoded (d : File) : Bytes := Wire.bytesOf d.wireFields

def encodeSet (files : List File) : Bytes := Wire.bytesOf (embeddedFields 1 File.encoded files)

end SchemaTree.Descriptor
