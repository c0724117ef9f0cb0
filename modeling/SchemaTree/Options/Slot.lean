import SchemaTree.Descriptor.TypeCode
import SchemaTree.Pool.Scope

/-!
# Messages described by declarations

The options of a declaration are a message whose type is itself declared. A slot, a field or an
extension of the type, says how the values of one number are read and changed.
-/

namespace SchemaTree.Options

open Descriptor
open Pool (Declaration)
open Schema (Dialect)

/-! ### Types -/

/-- A declared message as the type of values. -/
structure MessageType where
  name : String
  dialect : Dialect
  message : Message
deriving Repr, Inhabited

def messageType? (types : List Declaration) (name : String) : Option MessageType :=
  match Pool.find? types name with
  | some ⟨_, _, dialect, .message m⟩ => some ⟨name, dialect, m⟩
  | _ => none

/-! ### Slots -/

/-- A field or an extension of a message type. -/
structure Slot where
  field : Field
  dialect : Dialect
  isExtension : Bool
deriving Repr, Inhabited

namespace Slot

def number (slot : Slot) : Nat := slot.field.number.toNat

def form (slot : Slot) : Form := .ofCode slot.field.typeCode

def type? (types : List Declaration) (slot : Slot) : Option MessageType :=
  messageType? types (referent slot.field.typeName)

def isRepeated (slot : Slot) : Bool := slot.field.label = .repeated

def holdsMessages (slot : Slot) : Bool := slot.form = .message || slot.form = .group

/-- Whether the slot is a map: it is repeated, and its messages are marked as entries. -/
def isMap (types : List Declaration) (slot : Slot) : Bool :=
  slot.isRepeated && slot.form = .message &&
    ((slot.type? types).bind (·.message.options)).any (·.flag mapEntryNumber)

/-- Whether repeated values are packed: as the options of the field say, or in proto3 if it has none. -/
def isPacked (slot : Slot) : Bool :=
  slot.isRepeated && slot.form.isPackable &&
    match slot.field.options with
    | some options => options.flag packedNumber
    | none => slot.dialect = .proto3

/-- Whether the implied value that was set differs from nothing set. -/
def hasPresence (slot : Slot) : Bool :=
  if slot.isExtension then !slot.isRepeated
  else slot.field.isProto3Optional || slot.field.oneofIndex.isSome ||
    (!slot.isRepeated && (slot.holdsMessages || slot.dialect = .proto2))

def messageValue (slot : Slot) (contents : Bytes) : Wire.Value :=
  if slot.form = .group then .group contents 1 else .bytes contents

end Slot

/-! ### The slots of a type -/

namespace MessageType

def fieldSlot (type : MessageType) (field : Field) : Slot := ⟨field, type.dialect, false⟩

def slot? (type : MessageType) (name : String) : Option Slot :=
  (type.message.fields.find? (·.name = name)).map type.fieldSlot

def slotOfField? (type : MessageType) (number : Nat) : Option Slot :=
  (type.message.fields.find? (·.number = (number : Int))).map type.fieldSlot

def extensionSlot? (type : MessageType) (d : Declaration) : Option Slot :=
  match d.entry with
  | .extension field =>
    if field.extendee = some (absolute type.name) then some ⟨field, d.dialect, true⟩ else none
  | _ => none

/-- The slot of a number: a field, or one of the declared extensions. -/
def slotOfNumber? (types : List Declaration) (type : MessageType) (number : Nat) : Option Slot :=
  match type.slotOfField? number with
  | some slot => some slot
  | none =>
    types.findSome? fun d => (type.extensionSlot? d).filter (·.field.number = (number : Int))

/-- The other members of the choice that a slot belongs to. -/
def siblings (type : MessageType) (slot : Slot) : List Slot :=
  if slot.isExtension then []
  else match slot.field.oneofIndex with
    | none => []
    | some i =>
      (type.message.fields.filter fun f => f.oneofIndex = some i && f.number != slot.field.number).map
        type.fieldSlot

end MessageType
end SchemaTree.Options
