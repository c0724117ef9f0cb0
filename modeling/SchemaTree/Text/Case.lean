/-!
# Case and underscores in names

Names of declarations are compared and combined without regard to their underscores: `camel` turns
`foo_bar` into `fooBar`, and `squashed` into `foobar`. Only letters of ASCII change their case.
-/

namespace SchemaTree.Text

/-- Drops each underscore and puts the letter after it in upper case; `upper` says that an underscore
has just been dropped. -/
def camelFrom (upper : Bool) : List Char → List Char
  | [] => []
  | c :: cs =>
    if c = '_' then camelFrom true cs
    else (if upper then c.toUpper else c) :: camelFrom false cs

/-- A name in camel case: its first letter stays as it is. -/
def camel (name : String) : String := String.ofList (camelFrom false name.toList)

/-- A name in camel case with its first letter in upper case. -/
def upperCamel (name : String) : String := String.ofList (camelFrom true name.toList)

def lower (name : String) : String := name.map Char.toLower

def squashed (name : String) : String := String.ofList ((name.toList.filter (· != '_')).map Char.toLower)

end SchemaTree.Text
