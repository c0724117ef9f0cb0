import SchemaTree.Schema.Basic
import SchemaTree.Text.Quoted

/-!
# What a field shows besides its name

Each field carries a marker of one character, in which packed storage hides that the field is
optional, and a default clause. Fields that hold messages have no clause, the clause of a text is
always quoted, and that of an enum is the name of the value.
-/

namespace SchemaTree.Schema

/-! ### Markers -/

/-- The one-character summary of a field. -/
inductive Marker
  | implicit
  | optional
  | packed
deriving DecidableEq, Repr

def Marker.char : Marker → Char
  | implicit => '*'
  | optional => 'o'
  | packed => '+'

/-- The marker of a field; packed storage goes before optional. -/
def Field.marker (field : Field) : Marker :=
  if field.isPacked then .packed else if field.isOptional then .optional else .implicit

/-! ### Default clauses -/

def DefaultValue.clause? (value : DefaultValue) : Option String :=
  if value.isAbsent then none else some value.text

def Field.defaultClause? (field : Field) : Option String :=
  match field.kind with
  | .message => none
  | .string => some (Text.quoted field.defaultValue.text)
  | _ => field.defaultValue.clause?

end SchemaTree.Schema
