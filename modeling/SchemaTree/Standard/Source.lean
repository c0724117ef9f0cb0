/-!
# Standard source files

A schema can import some files without their being anywhere on disk. Their sources are part of the
library, as statements and blocks.
-/

namespace SchemaTree.Standard

/-- A block of items in braces. -/
def block (head : String) (items : List String) : String :=
  head ++ " \x7b " ++ String.intercalate " " items ++ " \x7d"

/-- A source file that every schema can import. -/
structure Source where
  name : String
  items : List String
deriving Repr

/-- The text of a standard source file. -/
def Source.text (source : Source) : String := String.intercalate "\n" source.items ++ "\n"

end SchemaTree.Standard
