import SchemaTree.Descriptor.Basic
import SchemaTree.Descriptor.TypeCode
import SchemaTree.Token.Basic

/-!
# Option values

The value after the equals sign of an option, as it is written. It becomes an uninterpreted option,
or, for the option `default` of a field, the text of the default: `defaultText?` checks the value
against the type of the field and writes it in the one form that descriptors use.
-/

namespace SchemaTree.Source

/-- A written option value. -/
inductive Literal
  /-- A word, or the words for infinity and for no number after a minus sign. -/
  | word (text : String)
  | integer (negative : Bool) (value : Nat)
  /-- A number with a point or an exponent, as the bits of a double. -/
  | float (negative : Bool) (bits : Nat)
  | string (value : Bytes)
  | aggregate (text : String)
deriving DecidableEq, Repr

namespace Literal

/-- An option with a written value; a negative number has to fit into 64 bits. -/
def uninterpreted? (name : List Descriptor.NamePart) :
    Literal → Option Descriptor.UninterpretedOption
  | word text => some { name, identifier := some text }
  | integer false n => some { name, positiveInt := some n }
  | integer true n => if n ≤ Width.size 63 then some { name, negativeInt := some (-n) } else none
  | float negative bits =>
    some { name, double := some (if negative then Ieee.binary64.signBit + bits else bits) }
  | string value => some { name, string := some value }
  | aggregate text => some { name, aggregate := some text }

/-! ### Defaults -/

def signedText (negative : Bool) (bits : Nat) : String :=
  Ieee.text Ieee.binary64 (if negative then Ieee.binary64.signBit + bits else bits)

/-- The default text of an integer field; unsigned types refuse a minus sign even before zero. -/
def integerDefault? (low high : Int) : Literal → Option String
  | integer negative n =>
    let value : Int := if negative then -n else n
    if (negative && low == 0) || value < low || high < value then none else some (Text.intText value)
  | _ => none

def floatDefault? : Literal → Option String
  | integer negative n => some (signedText negative (Ieee.round Ieee.binary64 false n 0))
  | float negative bits => some (signedText negative bits)
  | word text => if ["inf", "-inf", "nan", "-nan"].contains text then some text else none
  | _ => none

/-- A value as text, the default of a field with a named type. -/
def plainText : Literal → String
  | word text => text
  | integer negative n => Text.intText (if negative then -n else n)
  | float negative bits => signedText negative bits
  | string value => (Token.string value).print
  | aggregate text => text

/-- The default text of a field with a type code; code 0 stands for a named type. -/
def defaultText? (typeCode : Int) (literal : Literal) : Option String :=
  match Descriptor.integerBounds? typeCode with
  | some (low, high) => literal.integerDefault? low high
  | none =>
    if typeCode = 0 then some literal.plainText
    else if typeCode = 1 ∨ typeCode = 2 then literal.floatDefault?
    else match typeCode, literal with
      | 8, word text => if text = "true" ∨ text = "false" then some text else none
      | 9, string value => Wire.utf8? value
      | 12, string value => some (Token.escapeBytes value)
      | _, _ => none

end Literal
end SchemaTree.Source
