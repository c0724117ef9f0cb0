import SchemaTree.Schema.Basic
import SchemaTree.Source.Setting
import SchemaTree.Text.Case

/-!
# Fields and ranges of numbers in sources

Readers of the fields of messages, of the members of choices and of extensions. A map field comes with
the message of its entries, and a group with its own message.
-/

namespace SchemaTree.Source

open Descriptor (Label Options)
open Schema (Dialect)
open Token (Parser)
open Token.Parser

/-! ### Fields -/

def maxFieldNumber : Nat := 536870911

def fieldNumber : Parser Int := do
  let n ← natural
  if 1 ≤ n ∧ n ≤ maxFieldNumber then pure n else refuse

/-- Takes the type of a field: its code, 0 for a named type, and its name. -/
def fieldType : Parser (Int × String) := do
  match ← peek with
  | some (.word text) =>
    match Descriptor.codeOfWord? text with
    | some code =>
      let _ ← next
      pure (code, "")
    | none => pure (0, ← typeName)
  | _ => pure (0, ← typeName)

/-- Puts settings into a field: its default, its JSON name, and its options. Fields of proto3
files, repeated fields and fields that hold messages take no default. -/
def applySettings (dialect : Dialect) (field : Descriptor.Field) (settings : List Setting) :
    Parser Descriptor.Field := do
  let (default, settings) := splitSetting "default" settings
  let (jsonName, settings) := splitSetting "json_name" settings
  let defaultText ← match default with
    | none => pure none
    | some literal =>
      if dialect = .proto3 ∨ field.label = .repeated then refuse
      match literal.defaultText? field.typeCode with
      | some text => pure (some text)
      | none => refuse
  let jsonName ← match jsonName with
    | none => pure none
    | some (.string value) =>
      match Wire.utf8? value with
      | some text => pure (some text)
      | none => refuse
    | some _ => refuse
  pure { field with defaultText, jsonName, options := ← optionsOf settings }

structure FieldParts where
  field : Descriptor.Field
  message : Option Descriptor.Message := none

/-- Takes the rest of a group: a field and a message of almost the same name. -/
def group (dialect : Dialect) (label : Label) (body : Parser Descriptor.Message) : Parser FieldParts := do
  if dialect = .proto3 then refuse
  let name ← word
  unless (name.toList.head?.any Char.isUpper) do refuse
  symbol '='
  let number ← fieldNumber
  let settings ← settings
  let message ← body
  let field ← applySettings dialect
    { name := Text.lower name, number, label, typeCode := 10, typeName := name } settings
  pure ⟨field, some { message with name }⟩

/-- Whether a key of a map may have a type: any integer type, a flag or a text. -/
def isKeyCode (code : Int) : Bool := (Descriptor.integerBounds? code).isSome || code == 8 || code == 9

/-- The name of the message of the entries of a map field. -/
def entryName (field : String) : String := Text.upperCamel field ++ "Entry"

/-- Takes the rest of a map field: a repeated field and the message of its entries. -/
def mapField (dialect : Dialect) : Parser FieldParts := do
  symbol '<'
  let (keyCode, _) ← fieldType
  unless isKeyCode keyCode do refuse
  symbol ','
  let (valueCode, valueName) ← fieldType
  symbol '>'
  let name ← word
  symbol '='
  let number ← fieldNumber
  let settings ← settings
  let field ← applySettings dialect
    { name, number, label := .repeated, typeCode := 11, typeName := entryName name } settings
  let entry : Descriptor.Message :=
    { name := entryName name
      fields := [{ name := "key", number := 1, typeCode := keyCode },
        { name := "value", number := 2, typeCode := valueCode, typeName := valueName }]
      options := some (Options.ofFlag Descriptor.mapEntryNumber) }
  pure ⟨field, some entry⟩

def plainField (dialect : Dialect) (label : Label) (isOptional : Bool) : Parser FieldParts := do
  let (typeCode, typeName) ← fieldType
  let name ← word
  symbol '='
  let number ← fieldNumber
  let settings ← settings
  symbol ';'
  let field ← applySettings dialect { name, number, label, typeCode, typeName } settings
  pure ⟨{ field with isProto3Optional := isOptional && dialect = .proto3 }, none⟩

def label? : Parser (Option Label) := do
  if ← acceptWord "optional" then pure (some .optional)
  else if ← acceptWord "required" then pure (some .required)
  else if ← acceptWord "repeated" then pure (some .repeated)
  else pure none

/-- Takes a field of a message or an extension, with its label. In proto2 there has to be one, and in
proto3 and for extensions it cannot be `required`. -/
def labelledField (dialect : Dialect) (isExtension : Bool) (body : Parser Descriptor.Message) :
    Parser FieldParts := do
  let label ← label?
  if (← peek) = some (.word "map") then
    if isExtension || label.isSome then refuse
    keyword "map"
    let parts ← mapField dialect
    symbol ';'
    pure parts
  else
    if label = none ∧ dialect = .proto2 then refuse
    if label = some .required ∧ (isExtension ∨ dialect = .proto3) then refuse
    if ← acceptWord "group" then group dialect (label.getD .optional) body
    else plainField dialect (label.getD .optional) (label = some .optional)

/-- Takes a member of a choice: a field without label that is no map. -/
def oneofField (dialect : Dialect) (body : Parser Descriptor.Message) : Parser FieldParts := do
  if (← label?).isSome then refuse
  if ← acceptWord "map" then refuse
  if ← acceptWord "group" then group dialect .optional body
  else plainField dialect .optional false

/-! ### Ranges -/

/-- Takes a range after its first number; `greatest` is the number that `max` stands for. The flag
says whether an end was given. -/
def rangeEnd (number : Parser Int) (greatest first : Int) : Parser (Int × Bool) := do
  if ← acceptWord "to" then
    if ← acceptWord "max" then pure (greatest, true) else pure (← number, true)
  else pure (first, false)

/-- Takes a range of field numbers, with the number after its end. -/
def fieldRange : Parser (Descriptor.Range × Bool) := do
  let first ← fieldNumber
  let (last, hasEnd) ← rangeEnd fieldNumber maxFieldNumber first
  pure (⟨first, last + 1⟩, hasEnd)

def enumRange : Parser Descriptor.Range := do
  let first ← int32
  let (last, _) ← rangeEnd int32 (Width.greatest 32) first
  pure ⟨first, last⟩

/-- Takes the rest of a statement of extension ranges; options need an explicit end of the last range. -/
def extensionRanges : Parser (List Descriptor.ExtensionRange) := do
  let ranges ← separated fieldRange
  let hasEnd := ranges.getLast?.any (·.2)
  let settings ← if hasEnd then settings else pure []
  symbol ';'
  let options ← optionsOf settings
  pure (ranges.map fun (range, _) => { range with options })

/-- Whether a text can be a reserved name: a letter, then letters, digits and underscores. -/
def isReservable (name : String) : Bool :=
  match name.toList with
  | c :: cs => c.isAlpha && cs.all Token.continuesWord
  | [] => false

def reservedName : Parser String := do
  let name ← text
  if isReservable name then pure name else refuse

/-- Takes the rest of a reserved statement: ranges or names. -/
def reserved (range : Parser Descriptor.Range) : Parser (List Descriptor.Range × List String) := do
  let result ← match ← peek with
    | some (.string _) => pure ([], ← separated reservedName)
    | _ => pure (← separated range, [])
  symbol ';'
  pure result

end SchemaTree.Source
