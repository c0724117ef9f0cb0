/-!
# Parts of a text

Full names are cut into parts at their dots, paths into components at their slashes.
-/

namespace SchemaTree.Text

/-- The parts of a text between the places where a separator stands: one more than there are separators,
and some of them may be empty. -/
def parts (separator : Char) (text : String) : List String :=
  (text.toList.splitOn separator).map String.ofList

def startsWithChar (text : String) (c : Char) : Bool := text.toList.head? = some c

def endsWithChar (text : String) (c : Char) : Bool := text.toList.getLast? = some c

end SchemaTree.Text
