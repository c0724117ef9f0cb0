import SchemaTree.Descriptor.Options
import SchemaTree.Options.Slot
import SchemaTree.Pool.Default

/-!
# Implied values

A slot in which nothing was set has an implied value: none if it is repeated, else its declared default,
the first value of its enum, or zero. Without presence, a slot that was set to its implied value counts
as not set.
-/

namespace SchemaTree.Options

open Descriptor
open Pool (Declaration)

/-! ### Enums -/

def enumValue? (types : List Declaration) (slot : Slot) (name : String) : Option Wire.Value := do
  let e ← Pool.enum? types (referent slot.field.typeName)
  let value ← e.values.find? (·.name = name)
  some (integerValue enumCode value.number)

/-- The wire value of the first declared value of an enum. -/
def firstEnumValue? (types : List Declaration) (slot : Slot) : Option Wire.Value := do
  let e ← Pool.enum? types (referent slot.field.typeName)
  let value ← e.values.head?
  some (integerValue enumCode value.number)

/-! ### The implied value of a scalar -/

/-- The wire value of a value of a scalar type code. -/
def wireValue (code : Int) : Pool.Scalar → Wire.Value
  | .bool b => flagValue b
  | .int32 n => integerValue code n.toInt
  | .int64 n => integerValue code n.toInt
  | .uint32 n => integerValue code n.toNat
  | .uint64 n => integerValue code n.toNat
  | .float bits => .fixed32 bits.toNat
  | .double bits => .fixed64 bits.toNat
  | .string text => textValue text
  | .bytes value => .bytes value

namespace Slot

def declared? (types : List Declaration) (slot : Slot) : Option Wire.Value := do
  let text ← slot.field.defaultText
  if slot.field.typeCode = enumCode then enumValue? types slot text
  else (Pool.scalarDefault? slot.field.typeCode text).map (wireValue slot.field.typeCode)

/-- The value that a slot of one scalar has when nothing was set. -/
def implied (types : List Declaration) (slot : Slot) : Wire.Value :=
  match slot.declared? types with
  | some value => value
  | none =>
    if slot.field.typeCode = enumCode then (firstEnumValue? types slot).getD slot.form.zero
    else slot.form.zero

/-- Whether two values of a slot are equal; floating point values are if the numbers are. -/
def equal (slot : Slot) : Wire.Value → Wire.Value → Bool
  | .fixed64 a, .fixed64 b =>
    if slot.field.typeCode = doubleCode then Ieee.equal Ieee.binary64 a b else a = b
  | .fixed32 a, .fixed32 b =>
    if slot.field.typeCode = floatCode then Ieee.equal Ieee.binary32 a b else a = b
  | a, b => a = b

/-- Whether values are what a slot without presence implies. -/
def isImplied (types : List Declaration) (slot : Slot) (values : List Wire.Value) : Bool :=
  if slot.isRepeated then values.isEmpty else values.all (slot.equal (slot.implied types))

end Slot
end SchemaTree.Options
