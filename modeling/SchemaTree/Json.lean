import SchemaTree.Text.Integer

/-!
# JSON documents

A small document type whose objects keep the order of their members, and its indented text: two
blanks for each level, one element on a line, and nothing inside the brackets of an empty list or
object. A text is escaped only where the format asks for it.
-/

namespace SchemaTree

/-- A JSON document with whole numbers only. -/
inductive Json
  | text (value : String)
  | number (value : Int)
  | bool (value : Bool)
  | list (items : List Json)
  | object (members : List (String × Json))
deriving Repr, Inhabited

namespace Json

/-! ### Texts -/

def escapeChar (c : Char) : List Char :=
  if c = '"' then ['\\', '"']
  else if c = '\\' then ['\\', '\\']
  else if c = '\x08' then ['\\', 'b']
  else if c = '\x0c' then ['\\', 'f']
  else if c = '\n' then ['\\', 'n']
  else if c = '\r' then ['\\', 'r']
  else if c = '\t' then ['\\', 't']
  else if c.toNat < 0x20 then '\\' :: 'u' :: '0' :: '0' :: Text.hexPair c.toNat
  else [c]

def quote (text : String) : String := "\"" ++ String.ofList (text.toList.flatMap escapeChar) ++ "\""

/-! ### Indented text -/

def newline (level : Nat) : String := "\n" ++ String.ofList (List.replicate (2 * level) ' ')

mutual

/-- The indented text of a document that starts at a level. -/
def pretty (level : Nat) : Json → String
  | text value => quote value
  | number value => Text.intText value
  | bool true => "true"
  | bool false => "false"
  | list [] => "[]"
  | list (item :: items) =>
    "[" ++ newline (level + 1) ++ pretty (level + 1) item ++
      prettyItems (level + 1) items ++ newline level ++ "]"
  | object [] => "\x7b\x7d"
  | object ((key, value) :: members) =>
    "\x7b" ++ newline (level + 1) ++ quote key ++ ": " ++ pretty (level + 1) value ++
      prettyMembers (level + 1) members ++ newline level ++ "\x7d"

def prettyItems (level : Nat) : List Json → String
  | [] => ""
  | item :: items => "," ++ newline level ++ pretty level item ++ prettyItems level items

def prettyMembers (level : Nat) : List (String × Json) → String
  | [] => ""
  | (key, value) :: members =>
    "," ++ newline level ++ quote key ++ ": " ++ pretty level value ++ prettyMembers level members

end
end Json
end SchemaTree
