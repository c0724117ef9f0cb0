import SchemaTree.Options.Content

/-!
# The values of options

The value of an uninterpreted option is written without knowledge of its type. `scalarValue?` reads it
as a value of a scalar or enum type; it is refused if it is of another sort or out of range.
-/

namespace SchemaTree.Options

open Descriptor
open Pool (Declaration)

def integer? (code n : Int) : Option Wire.Value :=
  match integerBounds? code with
  | some (low, high) => if low ≤ n ∧ n ≤ high then some (integerValue code n) else none
  | none => none

def bool? : String → Option Wire.Value
  | "true" => some (.varint 1)
  | "false" => some (.varint 0)
  | _ => none

/-- The floating point value of type double or float of a whole number. -/
def floatOfInteger (code n : Int) : Wire.Value :=
  if code = doubleCode then .fixed64 (Ieee.round Ieee.binary64 (n < 0) n.natAbs 0)
  else .fixed32 (Ieee.round Ieee.binary32 (n < 0) n.natAbs 0)

/-- The floating point value of type double or float of the bits of a double. -/
def floatOfDouble (code : Int) (bits : Nat) : Wire.Value :=
  if code = doubleCode then .fixed64 bits
  else .fixed32 (Ieee.convert Ieee.binary64 Ieee.binary32 bits)

/-- The whole number that an option is set to. -/
def wholeNumber? (o : UninterpretedOption) : Option Int :=
  match o.positiveInt with
  | some n => some n
  | none => o.negativeInt

def scalarValue? (types : List Declaration) (slot : Slot) (o : UninterpretedOption) :
    Option Wire.Value :=
  let code := slot.field.typeCode
  match code with
  | 1 | 2 =>
    match o.double with
    | some bits => some (floatOfDouble code bits)
    | none => (wholeNumber? o).map (floatOfInteger code)
  | 8 => o.identifier.bind bool?
  | 9 => o.string.bind fun b => if (Wire.utf8? b).isSome then some (.bytes b) else none
  | 12 => o.string.map .bytes
  | 14 => o.identifier.bind (enumValue? types slot)
  | _ => (wholeNumber? o).bind (integer? code)

end SchemaTree.Options
