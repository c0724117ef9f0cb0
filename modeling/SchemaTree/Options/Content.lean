import SchemaTree.Options.Presence

/-!
# Contents of messages

The contents of a message whose type is declared are its values by ascending number. Messages inside are
kept as the bytes that they are written as, and numbers that the type does not know are kept as they
came. `MessageType.readContent?` reads contents as their type demands: of a single scalar the last value
counts, messages are merged, packed lists are taken apart, each entry of a map displaces one of the same
key, and each member of a choice displaces the others. `MessageType.bytesOf` writes them.
-/

namespace SchemaTree.Options

open Descriptor
open Pool (Declaration)

/-! ### Entries -/

/-- The values of one number in a message. A repeated slot that was touched may have none. -/
structure Entry where
  number : Nat
  values : List Wire.Value
deriving DecidableEq, Repr, Inhabited

/-- Puts an entry in its place among entries by ascending number, instead of one of its number. -/
def setEntry (entry : Entry) : List Entry → List Entry
  | [] => [entry]
  | e :: rest =>
    if entry.number < e.number then entry :: e :: rest
    else if entry.number = e.number then entry :: rest
    else e :: setEntry entry rest

structure Content where
  /-- The entries by ascending number, at most one for each. -/
  entries : List Entry := []
deriving DecidableEq, Repr, Inhabited

namespace Content

def values? (content : Content) (number : Nat) : Option (List Wire.Value) :=
  (content.entries.find? (·.number = number)).map (·.values)

def values (content : Content) (number : Nat) : List Wire.Value := (content.values? number).getD []

/-- Sets the values of a number in place of what was there. -/
def set (content : Content) (number : Nat) (values : List Wire.Value) : Content :=
  ⟨setEntry ⟨number, values⟩ content.entries⟩

def erase (content : Content) (number : Nat) : Content :=
  ⟨content.entries.filter (·.number != number)⟩

end Content

/-! ### Messages inside -/

def messageBytes : Wire.Value → Bytes
  | .bytes b => b
  | .group b _ => b
  | _ => []

/-- The bytes of the message in a slot of one message; without a value it is empty. -/
def Content.message (content : Content) (slot : Slot) : Bytes :=
  (content.values slot.number).flatMap messageBytes

/-! ### Repeated values -/

namespace Slot

/-- The written key of an entry of a map; the implied key counts as not written. -/
def keyOf? (types : List Declaration) (slot : Slot) (entry : Wire.Value) : Option Wire.Value := do
  let key ← (← slot.type? types).slotOfField? keyNumber
  let field ← (← Wire.readFields? (messageBytes entry)).find? (·.number = keyNumber)
  if key.equal (key.implied types) field.value then none else some field.value

/-- The values of a repeated slot with one more; an entry of a map displaces one of its key. -/
def addValue (types : List Declaration) (slot : Slot) (values : List Wire.Value) (value : Wire.Value) :
    List Wire.Value :=
  if slot.isMap types then
    values.filter (slot.keyOf? types · != slot.keyOf? types value) ++ [value]
  else values ++ [value]

end Slot

/-! ### Setting slots -/

def Slot.isSet (types : List Declaration) (slot : Slot) (content : Content) : Bool :=
  match content.values? slot.number with
  | some values => slot.hasPresence || !slot.isImplied types values
  | none => false

namespace MessageType

/-- Sets the values of a slot in place of what was there and of the other members of its choice. -/
def assign (type : MessageType) (slot : Slot) (values : List Wire.Value) (content : Content) : Content :=
  ((type.siblings slot).foldl (fun content other => content.erase other.number) content).set
    slot.number values

/-- Adds values to a slot; a slot of one value must not be set. -/
def add? (types : List Declaration) (type : MessageType) (slot : Slot) (values : List Wire.Value)
    (content : Content) : Option Content :=
  if slot.isRepeated then
    some (type.assign slot (values.foldl (slot.addValue types) (content.values slot.number)) content)
  else if slot.isSet types content then none
  else some (type.assign slot values content)

end MessageType

/-! ### Writing -/

def packedBytes : Wire.Value → Bytes
  | .varint v => Wire.varintBytes v
  | .fixed64 v => Wire.fixedBytes 8 v
  | .fixed32 v => Wire.fixedBytes 4 v
  | .bytes v => v
  | .group .. => []

namespace MessageType

/-- The fields of an entry on the wire; implied values without presence are left out. -/
def fieldsOf (types : List Declaration) (type : MessageType) (entry : Entry) : List Wire.Field :=
  let fields := entry.values.map (⟨entry.number, ·⟩)
  match type.slotOfNumber? types entry.number with
  | some slot =>
    if !slot.hasPresence && slot.isImplied types entry.values then []
    else if slot.isPacked then [⟨entry.number, .bytes (entry.values.flatMap packedBytes)⟩]
    else fields
  | none => fields

def bytesOf (types : List Declaration) (type : MessageType) (content : Content) : Bytes :=
  Wire.bytesOf (content.entries.flatMap (type.fieldsOf types))

end MessageType

/-! ### Reading -/

namespace Slot

def packedValues? (slot : Slot) (bytes : Bytes) : Option (List Wire.Value) :=
  match slot.form with
  | .varint => (Wire.readVarints? bytes).map (·.map fun v => .varint (narrowVarint slot.field.typeCode v))
  | .fixed64 => (Wire.readFixed? 8 bytes).map (·.map .fixed64)
  | .fixed32 => (Wire.readFixed? 4 bytes).map (·.map .fixed32)
  | _ => none

/-- The scalars that a value on the wire gives a slot: one, or those of a packed list. -/
def scalars? (slot : Slot) (value : Wire.Value) : Option (List Wire.Value) :=
  match slot.form, value with
  | .varint, .varint v => some [.varint (narrowVarint slot.field.typeCode v)]
  | .fixed64, .fixed64 v => some [.fixed64 v]
  | .fixed32, .fixed32 v => some [.fixed32 v]
  | .text, .bytes b => if (Wire.utf8? b).isSome then some [.bytes b] else none
  | .bytes, .bytes b => some [.bytes b]
  | _, .bytes b => if slot.isRepeated then slot.packedValues? b else none
  | _, _ => none

/-- The bytes of a message on the wire in the form that the slot demands. -/
def messageBytes? (slot : Slot) (value : Wire.Value) : Option Bytes :=
  match slot.form, value with
  | .message, .bytes b => some b
  | .group, .group b _ => some b
  | _, _ => none

/-- The values of a slot after one more value on the wire; `normal?` gives the bytes of a message as they
are written, if the bytes are one. -/
def receive? (types : List Declaration) (slot : Slot) (normal? : Bytes → Option Bytes)
    (old : List Wire.Value) (value : Wire.Value) : Option (List Wire.Value) :=
  if slot.holdsMessages then do
    let new ← slot.messageBytes? value
    if slot.isRepeated then some (slot.addValue types old (slot.messageValue (← normal? new)))
    else some [slot.messageValue (← normal? (old.flatMap messageBytes ++ new))]
  else do
    let new ← slot.scalars? value
    some (if slot.isRepeated then old ++ new else new)

end Slot

/-- Takes one field on the wire into the contents of a message. -/
def MessageType.receive? (types : List Declaration) (type : MessageType)
    (normal? : MessageType → Bytes → Option Bytes) (content : Content) (field : Wire.Field) :
    Option Content :=
  let old := content.values field.number
  match type.slotOfNumber? types field.number with
  | none => some (content.set field.number (old ++ [field.value]))
  | some slot => do
    let normalInner? (bytes : Bytes) := (slot.type? types).bind (normal? · bytes)
    some (type.assign slot (← slot.receive? types normalInner? old field.value) content)

/-- Reads the contents of a message in which messages are nested at most `fuel` deep. -/
def readContentWithin? (types : List Declaration) : (fuel : Nat) → MessageType → Bytes → Option Content
  | 0, _, _ => none
  | fuel + 1, type, bytes => do
    let normal? (inner : MessageType) (bytes : Bytes) : Option Bytes :=
      (readContentWithin? types fuel inner bytes).map (inner.bytesOf types)
    (← Wire.readFields? bytes).foldlM (type.receive? types normal?) {}

def MessageType.readContent? (types : List Declaration) (type : MessageType) (bytes : Bytes) :
    Option Content :=
  readContentWithin? types (bytes.length + 1) type bytes

end SchemaTree.Options
