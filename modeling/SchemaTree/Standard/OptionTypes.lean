import SchemaTree.Descriptor.Basic
import SchemaTree.Descriptor.TypeCode
import SchemaTree.Schema.Kind
import SchemaTree.Standard.Source
import SchemaTree.Text.Integer

/-!
# The standard options messages

Each kind of declaration has an options message. The standard ones are here as declared messages, since
options are interpreted with them, and are printed for the source of the file that declares them.
-/

namespace SchemaTree.Standard
open Descriptor

/-- The number of the option that marks a field as deprecated. -/
def deprecatedNumber : Nat := 3

/-! ### Printing -/

def fieldText (field : Field) : String :=
  let label := match field.label with
    | .optional => "optional "
    | .required => "required "
    | .repeated => "repeated "
  let type := if field.typeName = "" then (Schema.Kind.ofCode field.typeCode).token else field.typeName
  let default := (field.defaultText.map ("default = " ++ ·)).toList
  let deprecated := if field.options.any (·.flag deprecatedNumber) then ["deprecated = true"] else []
  let options := match default ++ deprecated with
    | [] => ""
    | clauses => " [" ++ String.intercalate ", " clauses ++ "]"
  label ++ type ++ " " ++ field.name ++ " = " ++ Text.intText field.number ++ options ++ ";"

def enumText (enum : Enum) : String :=
  block ("enum " ++ enum.name) (enum.values.map fun v => v.name ++ " = " ++ Text.intText v.number ++ ";")

mutual

def messageText : Message → String
  | ⟨name, fields, _, messages, enums, extensionRanges, _, _, reservedRanges, _⟩ =>
    block ("message " ++ name) <|
      messageTexts messages ++ enums.map enumText ++ fields.map fieldText ++
        (extensionRanges.map fun r => "extensions " ++ Text.intText r.first ++ " to max;") ++
        reservedRanges.map fun r => "reserved " ++ Text.intText r.first ++ ";"

def messageTexts : List Message → List String
  | [] => []
  | m :: ms => messageText m :: messageTexts ms

end

/-! ### Fields -/

def text (name : String) (number : Int) : Field := { name, number, typeCode := textCode }

def flag (name : String) (number : Int) (defaultText : Option String := some "false") : Field :=
  { name, number, typeCode := boolCode, defaultText }

/-- A field of an enum, with the full name and the default. -/
def choice (name : String) (number : Int) (typeName defaultText : String) : Field :=
  { name, number, typeCode := enumCode, typeName, defaultText := some defaultText }

/-- The field for options that have not been interpreted. -/
def uninterpreted : Field where
  name := "uninterpreted_option"
  number := uninterpretedNumber
  label := .repeated
  typeCode := messageCode
  typeName := ".google.protobuf.UninterpretedOption"

/-! ### Messages -/

/-- Values numbered from some number on. -/
def numbered (first : Nat) (names : List String) : List EnumValue :=
  (names.zipIdx first).map fun (name, number) => { name, number }

/-- An options message, with numbers for extensions and single numbers that are reserved. -/
def optionsMessage (name : String) (fields : List Field) (enums : List Enum := [])
    (reserved : List Int := []) : Message where
  name
  fields := fields ++ [uninterpreted]
  enums
  extensionRanges := [{ first := 1000, stop := 536870912 }]
  reservedRanges := reserved.map fun n => ⟨n, n + 1⟩

def fileOptions : Message :=
  optionsMessage "FileOptions" [
      text "java_package" 1,
      text "java_outer_classname" 8,
      flag "java_multiple_files" 10,
      { flag "java_generate_equals_and_hash" 20 none with options := some (.ofFlag deprecatedNumber) },
      flag "java_string_check_utf8" 27,
      choice "optimize_for" 9 ".google.protobuf.FileOptions.OptimizeMode" "SPEED",
      text "go_package" 11,
      flag "cc_generic_services" 16,
      flag "java_generic_services" 17,
      flag "py_generic_services" 18,
      flag "php_generic_services" 42,
      flag "deprecated" 23,
      flag "cc_enable_arenas" 31 (some "true"),
      text "objc_class_prefix" 36,
      text "csharp_namespace" 37,
      text "swift_prefix" 39,
      text "php_class_prefix" 40,
      text "php_namespace" 41,
      text "php_metadata_namespace" 44,
      text "ruby_package" 45]
    [{ name := "OptimizeMode", values := numbered 1 ["SPEED", "CODE_SIZE", "LITE_RUNTIME"] }]
    [38]

def messageOptions : Message :=
  optionsMessage "MessageOptions" [
      flag "message_set_wire_format" 1,
      flag "no_standard_descriptor_accessor" 2,
      flag "deprecated" 3,
      flag "map_entry" mapEntryNumber none]
    [] [4, 5, 6, 8, 9]

def fieldOptions : Message :=
  optionsMessage "FieldOptions" [
      choice "ctype" 1 ".google.protobuf.FieldOptions.CType" "STRING",
      flag "packed" packedNumber none,
      choice "jstype" 6 ".google.protobuf.FieldOptions.JSType" "JS_NORMAL",
      flag "lazy" 5,
      flag "unverified_lazy" 15,
      flag "deprecated" 3,
      flag "weak" 10]
    [{ name := "CType", values := numbered 0 ["STRING", "CORD", "STRING_PIECE"] },
      { name := "JSType", values := numbered 0 ["JS_NORMAL", "JS_STRING", "JS_NUMBER"] }]
    [4]

def oneofOptions : Message := optionsMessage "OneofOptions" []

def enumOptions : Message :=
  optionsMessage "EnumOptions" [flag "allow_alias" allowAliasNumber none, flag "deprecated" 3] [] [5]

def enumValueOptions : Message := optionsMessage "EnumValueOptions" [flag "deprecated" 1]

def extensionRangeOptions : Message := optionsMessage "ExtensionRangeOptions" []

def serviceOptions : Message := optionsMessage "ServiceOptions" [flag "deprecated" 33]

def methodOptions : Message :=
  optionsMessage "MethodOptions" [
      flag "deprecated" 33,
      choice "idempotency_level" 34 ".google.protobuf.MethodOptions.IdempotencyLevel" "IDEMPOTENCY_UNKNOWN"]
    [{ name := "IdempotencyLevel"
       values := numbered 0 ["IDEMPOTENCY_UNKNOWN", "NO_SIDE_EFFECTS", "IDEMPOTENT"] }]

/-- Options that have not been interpreted. -/
def uninterpretedOption : Message where
  name := "UninterpretedOption"
  messages := [{
    name := "NamePart"
    fields := [{ text "name_part" 1 with label := .required },
      { flag "is_extension" 2 none with label := .required }] }]
  fields := [
    { name := "name", number := 2, label := .repeated, typeCode := messageCode
      typeName := ".google.protobuf.UninterpretedOption.NamePart" },
    text "identifier_value" 3,
    { name := "positive_int_value", number := 4, typeCode := uint64Code },
    { name := "negative_int_value", number := 5, typeCode := int64Code },
    { name := "double_value", number := 6, typeCode := doubleCode },
    { name := "string_value", number := 7, typeCode := bytesCode },
    text "aggregate_value" 8]

/-- All options messages, as they are declared in the standard file of declared files. -/
def optionTypes : File where
  name := "google/protobuf/descriptor.proto"
  package := "google.protobuf"
  messages := [fileOptions, messageOptions, fieldOptions, oneofOptions, enumOptions, enumValueOptions,
    extensionRangeOptions, serviceOptions, methodOptions, uninterpretedOption]
  dialect := some "proto2"

end SchemaTree.Standard
