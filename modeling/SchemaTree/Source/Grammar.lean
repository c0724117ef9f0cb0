import SchemaTree.Source.Field
import SchemaTree.Text.Parts

/-!
# The grammar of schema sources

Each function reads one construct from the front of the tokens and gives its declaration. Names of
types are kept as written; map fields, groups and fields declared `optional` in proto3 get the nested
message or the choice that stands for them.
-/

namespace SchemaTree.Source

open Descriptor (Options)
open Schema (Dialect)
open Token (Parser)
open Token.Parser

/-! ### Enums and services -/

def enumValue : Parser Descriptor.EnumValue := do
  let name ← word
  symbol '='
  let number ← int32
  let settings ← settings
  symbol ';'
  pure { name, number, options := ← optionsOf settings }

def enumItem (d : Descriptor.Enum) : Parser Descriptor.Enum := do
  if ← accept ';' then pure d
  else if ← acceptWord "option" then pure { d with options := ← optionStatement d.options }
  else if ← acceptWord "reserved" then
    let (ranges, names) ← reserved enumRange
    pure { d with
      reservedRanges := d.reservedRanges ++ ranges
      reservedNames := d.reservedNames ++ names }
  else
    let value ← enumValue
    pure { d with values := d.values ++ [value] }

def enum : Parser Descriptor.Enum := do
  let name ← word
  block enumItem { name }

/-- Takes a message name in parentheses, perhaps after the word for a stream. -/
def endpoint : Parser (String × Bool) := do
  symbol '('
  let streaming ← acceptWord "stream"
  let name ← typeName
  symbol ')'
  pure (name, streaming)

def methodItem (d : Descriptor.Method) : Parser Descriptor.Method := do
  if ← accept ';' then pure d
  else
    keyword "option"
    pure { d with options := ← optionStatement d.options }

def method : Parser Descriptor.Method := do
  let name ← word
  let (input, clientStreaming) ← endpoint
  keyword "returns"
  let (output, serverStreaming) ← endpoint
  let d : Descriptor.Method := { name, input, output, clientStreaming, serverStreaming }
  if ← accept ';' then pure d else block methodItem d

def serviceItem (d : Descriptor.Service) : Parser Descriptor.Service := do
  if ← accept ';' then pure d
  else if ← acceptWord "option" then pure { d with options := ← optionStatement d.options }
  else
    keyword "rpc"
    let m ← method
    pure { d with methods := d.methods ++ [m] }

def service : Parser Descriptor.Service := do
  let name ← word
  block serviceItem { name }

/-! ### Messages -/

/-- Extensions under construction, with the messages of groups among them. -/
structure ExtensionBlock where
  fields : List Descriptor.Field := []
  messages : List Descriptor.Message := []

def extensions (dialect : Dialect) (body : Parser Descriptor.Message) : Parser ExtensionBlock := do
  let extendee ← typeName
  block (fun d => do
    if ← accept ';' then pure d
    else
      let parts ← labelledField dialect true body
      let field := { parts.field with extendee := some extendee }
      pure ⟨d.fields ++ [field], d.messages ++ parts.message.toList⟩) {}

def addField (d : Descriptor.Message) (parts : FieldParts) : Descriptor.Message :=
  { d with fields := d.fields ++ [parts.field], messages := d.messages ++ parts.message.toList }

/-- Takes the rest of a choice, which has at least one member. -/
def oneof (dialect : Dialect) (body : Parser Descriptor.Message) (d : Descriptor.Message) :
    Parser Descriptor.Message := do
  let name ← word
  let index : Int := d.oneofs.length
  let (members, options) ← block (fun (s : Descriptor.Message × Option Options) => do
    if ← accept ';' then pure s
    else if ← acceptWord "option" then pure (s.1, ← optionStatement s.2)
    else
      let parts ← oneofField dialect body
      pure (addField s.1 { parts with field := { parts.field with oneofIndex := some index } }, s.2))
    (d, none)
  if members.fields.length = d.fields.length then refuse
  pure { members with oneofs := members.oneofs ++ [{ name, options }] }

/-- Takes an item of a message; `body` takes the block of a message nested in it. -/
def messageItem (dialect : Dialect) (body : Parser Descriptor.Message) (d : Descriptor.Message) :
    Parser Descriptor.Message := do
  if ← accept ';' then pure d
  else if ← acceptWord "message" then
    let name ← word
    let nested ← body
    pure { d with messages := d.messages ++ [{ nested with name }] }
  else if ← acceptWord "enum" then
    let e ← enum
    pure { d with enums := d.enums ++ [e] }
  else if ← acceptWord "extend" then
    let x ← extensions dialect body
    pure { d with extensions := d.extensions ++ x.fields, messages := d.messages ++ x.messages }
  else if ← acceptWord "extensions" then
    let ranges ← extensionRanges
    pure { d with extensionRanges := d.extensionRanges ++ ranges }
  else if ← acceptWord "reserved" then
    let (ranges, names) ← reserved (do pure (← fieldRange).1)
    pure { d with
      reservedRanges := d.reservedRanges ++ ranges
      reservedNames := d.reservedNames ++ names }
  else if ← acceptWord "option" then pure { d with options := ← optionStatement d.options }
  else if ← acceptWord "oneof" then oneof dialect body d
  else pure (addField d (← labelledField dialect false body))

/-- The name of the choice that stands for a field declared `optional` in proto3. -/
def syntheticName (field : String) : String :=
  (if field.toList.head? = some '_' then "X" else "_") ++ field

/-- Gives each field declared `optional` in proto3 a choice of its own, after the declared
ones. -/
def addSyntheticOneofs (d : Descriptor.Message) : Descriptor.Message :=
  let (fields, oneofs) := d.fields.foldl
    (fun (fields, oneofs) field =>
      if field.isProto3Optional then
        (fields ++ [{ field with oneofIndex := some (oneofs.length : Int) }],
          oneofs ++ [{ name := syntheticName field.name }])
      else (fields ++ [field], oneofs))
    ([], d.oneofs)
  { d with fields, oneofs }

/-- Takes the block of a message with at most `fuel` levels of messages in it. -/
def messageBody (dialect : Dialect) : (fuel : Nat) → Parser Descriptor.Message
  | 0 => refuse
  | fuel + 1 => do
    let d ← block (messageItem dialect (messageBody dialect fuel)) {}
    pure (addSyntheticOneofs d)

/-! ### Files -/

/-- Whether a text can be the name of a file: components that are not empty and not dots only, with
single slashes between them and no backslash. -/
def isFileName (name : String) : Bool :=
  (Text.parts '/' name).all (fun c => c != "" && c != "." && c != "..") && !name.toList.contains '\\'

def importStatement (d : Descriptor.File) : Parser Descriptor.File := do
  let isPublic ← acceptWord "public"
  let isWeak ← if isPublic then pure false else acceptWord "weak"
  let name ← text
  symbol ';'
  if !isFileName name || d.imports.contains name then refuse
  let index : Int := d.imports.length
  pure { d with
    imports := d.imports ++ [name]
    publicImports := if isPublic then d.publicImports ++ [index] else d.publicImports
    weakImports := if isWeak then d.weakImports ++ [index] else d.weakImports }

def fileItem (dialect : Dialect) (body : Parser Descriptor.Message) (d : Descriptor.File) :
    Parser Descriptor.File := do
  if ← accept ';' then pure d
  else if ← acceptWord "import" then importStatement d
  else if ← acceptWord "package" then
    let name ← dottedName
    symbol ';'
    if d.package != "" then refuse
    pure { d with package := name }
  else if ← acceptWord "option" then pure { d with options := ← optionStatement d.options }
  else if ← acceptWord "message" then
    let name ← word
    let m ← body
    pure { d with messages := d.messages ++ [{ m with name }] }
  else if ← acceptWord "enum" then
    let e ← enum
    pure { d with enums := d.enums ++ [e] }
  else if ← acceptWord "extend" then
    let x ← extensions dialect body
    pure { d with extensions := d.extensions ++ x.fields, messages := d.messages ++ x.messages }
  else
    keyword "service"
    let s ← service
    pure { d with services := d.services ++ [s] }

def fileItems (dialect : Dialect) (body : Parser Descriptor.Message) :
    (fuel : Nat) → Descriptor.File → Parser Descriptor.File
  | 0, d => do
    if (← peek).isSome then refuse
    pure d
  | fuel + 1, d => do
    if (← peek).isNone then pure d else fileItems dialect body fuel (← fileItem dialect body d)

def dialectStatement : Parser (Option String) := do
  if ← acceptWord "syntax" then
    symbol '='
    let word ← text
    symbol ';'
    pure (some word)
  else pure none

def file (name : String) : Parser Descriptor.File := do
  let word ← dialectStatement
  let dialect ← match word with
    | none | some "proto2" => pure .proto2
    | some "proto3" => pure .proto3
    | some _ => refuse
  let fuel ← remaining
  -- Every item takes a token, so there are no more items and no more levels than tokens.
  fileItems dialect (messageBody dialect fuel) fuel { name, dialect := word }

def read? (name source : String) : Option Descriptor.File := do
  let tokens ← Token.readSource? source
  let (file, _) ← Source.file name tokens
  some file

end SchemaTree.Source
