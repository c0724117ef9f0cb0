import SchemaTree.Ieee
import SchemaTree.Text.Integer
import SchemaTree.Wire

/-!
# Tokens

The words, numbers, strings and symbols that schema sources and message literals are made of.
`Token.print` writes a token so that it can be read again.
-/

namespace SchemaTree

inductive Token
  | word (text : String)
  | integer (value : Nat)
  /-- A whole number of a message literal that is written in base 8 or 16. -/
  | prefixedInteger (value : Nat)
  /-- A number with a point or an exponent, as the bits of a double. -/
  | float (bits : Nat)
  | string (value : Bytes)
  | symbol (char : Char)
  /-- The tokens between braces after an equals sign, printed with blanks between them. -/
  | aggregate (text : String)
deriving DecidableEq, Repr, Inhabited

namespace Token

/-! ### Character classes -/

def startsWord (c : Char) : Bool := c.isAlpha || c == '_'

def continuesWord (c : Char) : Bool := c.isAlphanum || c == '_'

def isBlank (c : Char) : Bool := c == ' ' || (9 ≤ c.toNat && c.toNat ≤ 13)

def isSymbol (c : Char) : Bool := ".-+()[]<>;,=:/\x7b\x7d".toList.contains c

/-! ### Printing -/

/-- The three octal digits of a number below 512. -/
def octalTriple (n : Nat) : List Char :=
  [Nat.digitChar (n / 64 % 8), Nat.digitChar (n / 8 % 8), Nat.digitChar (n % 8)]

/-- The written form of a byte in a string: printable characters of ASCII stand for themselves, quotes
and backslashes follow a backslash, and all else is octal. -/
def escapeByte (b : UInt8) : List Char :=
  let c := Char.ofNat b.toNat
  if c = '\\' ∨ c = '"' ∨ c = '\'' then ['\\', c]
  else if 0x20 ≤ b ∧ b < 0x7f then [c]
  else '\\' :: octalTriple b.toNat

def escapeBytes (bs : Bytes) : String := String.ofList (bs.flatMap escapeByte)

/-- A double as text that is read as a number with a point, or as the word of an infinity. -/
def floatText (bits : Nat) : String :=
  let text := Ieee.text Ieee.binary64 bits
  if text.toList.all fun c => c.isDigit || c == '-' then text ++ ".0" else text

def print : Token → String
  | word text => text
  | integer value | prefixedInteger value => Text.natText value
  | float bits => floatText bits
  | string value => "\"" ++ escapeBytes value ++ "\""
  | symbol char => String.singleton char
  | aggregate text => "\x7b " ++ text ++ " \x7d"

end Token
end SchemaTree
