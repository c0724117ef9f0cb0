import SchemaTree.Text.Integer

/-!
# Text between double quotes

`escape` writes a text so that it can stand between double quotes on one line: a backslash, a quote
and the three common control characters become two characters, every other control character of
ASCII becomes `\xHH`, and all else stands for itself.
-/

namespace SchemaTree.Text

/-- Whether a character is a control character of ASCII, the delete character included. -/
def isControl (c : Char) : Bool := c.toNat < 0x20 || c.toNat == 0x7f

/-- The written form of one character between double quotes. -/
def escapeChar (c : Char) : List Char :=
  if c = '\\' then ['\\', '\\']
  else if c = '"' then ['\\', '"']
  else if c = '\n' then ['\\', 'n']
  else if c = '\r' then ['\\', 'r']
  else if c = '\t' then ['\\', 't']
  else if isControl c then '\\' :: 'x' :: hexPair c.toNat
  else [c]

def escape (text : String) : String := String.ofList (text.toList.flatMap escapeChar)

def quoted (text : String) : String := "\"" ++ escape text ++ "\""

end SchemaTree.Text
