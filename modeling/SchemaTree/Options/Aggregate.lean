import SchemaTree.Options.Value
import SchemaTree.Text.Case
import SchemaTree.Token.Parser

/-!
# Message literals

The text between the braces of a message literal sets the fields of a message one after the other, as
`name: value`, `[extension.name]: value` or, for messages, also without the colon. A repeated field may
have a list in brackets. A field of one value is set at most once, and not beside another member of its
choice.
-/

namespace SchemaTree.Options

open Descriptor
open Pool (Declaration)
open Token (Parser)
open Token.Parser

/-! ### Names -/

inductive BracketName
  | extension (name : String)
  /-- A type after the domain that serves it. -/
  | type (domain name : String)

def bracketName : Parser BracketName := do
  let first ← dottedName
  let name ← if ← accept '/' then pure (.type first (← dottedName)) else pure (.extension first)
  symbol ']'
  pure name

/-- The slot of a name without brackets: that of the field of the name, unless it is a group. A group
goes by the name of its message, of which its own name is the lower case. -/
def MessageType.literalSlot? (types : List Declaration) (type : MessageType) (name : String) :
    Option Slot :=
  match (type.slot? name).filter (·.form != .group) with
  | some slot => some slot
  | none =>
    (type.slot? (Text.lower name)).filter fun slot =>
      slot.form = .group && (slot.type? types).any (·.message.name = name)

def MessageType.namedExtension? (types : List Declaration) (type : MessageType) (name : String) :
    Option Slot :=
  (Pool.find? types name).bind type.extensionSlot?

/-! ### Scalar values -/

/-- Takes a flag: a word, or one of the numbers 0 and 1. -/
def boolLiteral : Parser Wire.Value := do
  match ← peek with
  | some (.word _) =>
    match ← word with
    | "true" | "True" | "t" => pure (.varint 1)
    | "false" | "False" | "f" => pure (.varint 0)
    | _ => refuse
  | _ =>
    let n ← natural
    if n < 2 then pure (.varint n) else refuse

/-- Takes a whole number; unsigned types refuse a minus sign. -/
def integerLiteral (code : Int) : Parser Wire.Value := do
  let negative ← accept '-'
  let n ← natural
  let isUnsigned := (integerBounds? code).any (·.1 = 0)
  match integer? code (if negative then -n else n) with
  | some value => if negative && isUnsigned then refuse else pure value
  | none => refuse

/-- Takes a floating point number, a whole number in base 10 or one of the words for special values. -/
def floatLiteral (code : Int) : Parser Wire.Value := do
  let negative ← accept '-'
  let f := Ieee.binary64
  let signed (bits : Nat) := floatOfDouble code (if negative then f.signBit + bits else bits)
  match ← next with
  | .integer n => pure (signed (Ieee.round f false n 0))
  | .float bits => pure (signed bits)
  | .word text =>
    match Text.lower text with
    | "inf" | "infinity" => pure (signed f.infinity)
    | "nan" => pure (signed (f.quietNaN false))
    | _ => refuse
  | _ => refuse

/-- Takes a value of an enum by name, or any number of 32 bits. -/
def enumLiteral (types : List Declaration) (slot : Slot) : Parser Wire.Value := do
  match ← peek with
  | some (.word name) =>
    let _ ← next
    match enumValue? types slot name with
    | some value => pure value
    | none => refuse
  | _ => pure (integerValue enumCode (← int32))

def scalarLiteral (types : List Declaration) (slot : Slot) : Parser Wire.Value := do
  match slot.field.typeCode with
  | 1 | 2 => floatLiteral slot.field.typeCode
  | 8 => boolLiteral
  | 9 =>
    let value ← string
    if (Wire.utf8? value).isSome then pure (.bytes value) else refuse
  | 12 => pure (.bytes (← string))
  | 14 => enumLiteral types slot
  | code => integerLiteral code

/-! ### Messages -/

/-- How the fields of a message up to a closing symbol are read. -/
abbrev Body := MessageType → (close : Option Char) → Parser Content

def messageLiteral (types : List Declaration) (body : Body) (type : MessageType) : Parser Bytes := do
  match ← next with
  | .symbol '\x7b' => pure (type.bytesOf types (← body type (some '\x7d')))
  | .symbol '<' => pure (type.bytesOf types (← body type (some '>')))
  | _ => refuse

def slotValue (types : List Declaration) (body : Body) (slot : Slot) : Parser Wire.Value := do
  if slot.holdsMessages then
    match slot.type? types with
    | some type => pure (slot.messageValue (← messageLiteral types body type))
    | none => refuse
  else scalarLiteral types slot

/-- Takes the values of a slot: one, or a list in brackets if the slot is repeated. -/
def slotValues (types : List Declaration) (body : Body) (slot : Slot) : Parser (List Wire.Value) := do
  let hasColon ← accept ':'
  unless hasColon || slot.holdsMessages do refuse
  if hasColon && slot.isRepeated && (← accept '[') then
    if ← accept ']' then pure []
    else
      let values ← separated (slotValue types body slot)
      symbol ']'
      pure values
  else pure [← slotValue types body slot]

/-- Adds values to a slot. A slot of one value must not be set, nor any other member of its choice. -/
def addValues (types : List Declaration) (type : MessageType) (slot : Slot) (values : List Wire.Value)
    (content : Content) : Parser Content := do
  if !slot.isRepeated && (type.siblings slot).any (·.isSet types content) then refuse
  match type.add? types slot values content with
  | some content => pure content
  | none => refuse

/-- The full name of the type that holds a message of any type. -/
def anyName : String := "google.protobuf.Any"

/-- The slots of the type that holds a message of any type: the name of the type, and the message. -/
def MessageType.anySlots? (type : MessageType) : Option (Slot × Slot) := do
  let name ← (type.slotOfField? 1).filter (·.field.typeCode = textCode)
  let message ← (type.slotOfField? 2).filter (·.field.typeCode = bytesCode)
  if type.name = anyName then some (name, message) else none

/-- Takes the message of a type named in brackets, as the value of a message of any type. -/
def anyValue (types : List Declaration) (body : Body) (type : MessageType) (domain name : String)
    (content : Content) : Parser Content := do
  let _ ← accept ':'
  match type.anySlots?, messageType? types name with
  | some (nameSlot, messageSlot), some inner =>
    let bytes ← messageLiteral types body inner
    pure (type.assign messageSlot [.bytes bytes]
      (type.assign nameSlot [textValue (domain ++ "/" ++ name)] content))
  | _, _ => refuse

def fieldLiteral (types : List Declaration) (body : Body) (type : MessageType) (content : Content) :
    Parser Content := do
  let set (slot : Option Slot) : Parser Content := do
    match slot with
    | some slot => addValues types type slot (← slotValues types body slot) content
    | none => refuse
  let content ←
    if ← accept '[' then
      match ← bracketName with
      | .extension name => set (type.namedExtension? types name)
      | .type domain name => anyValue types body type domain name content
    else set (type.literalSlot? types (← word))
  unless ← accept ',' do
    let _ ← accept ';'
  pure content

/-- Takes fields up to the closing symbol, or up to the end if there is none; at most `fuel` of them. -/
def fieldsUntil (item : Content → Parser Content) (close : Option Char) :
    (fuel : Nat) → Content → Parser Content
  | 0, _ => refuse
  | fuel + 1, content => do
    match ← peek, close with
    | none, none => pure content
    | none, some _ => refuse
    | some token, some c =>
      if token = .symbol c then
        let _ ← next
        pure content
      else fieldsUntil item close fuel (← item content)
    | some _, none => fieldsUntil item close fuel (← item content)

/-- Takes the fields of a message with messages nested at most `fuel` deep. -/
def messageFields (types : List Declaration) : (fuel : Nat) → Body
  | 0, _, _ => refuse
  | fuel + 1, type, close => do
    fieldsUntil (fieldLiteral types (messageFields types fuel) type) close ((← remaining) + 1) {}

/-- The message of a type that a literal stands for, in wire form. -/
def readAggregate? (types : List Declaration) (type : MessageType) (text : String) : Option Bytes := do
  let tokens ← Token.readLiteral? text
  let (content, _) ← messageFields types (tokens.length + 1) type none tokens
  some (type.bytesOf types content)

end SchemaTree.Options
