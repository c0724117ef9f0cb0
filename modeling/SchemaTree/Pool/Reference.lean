import SchemaTree.Descriptor.TypeCode
import SchemaTree.Pool.Scope

/-!
# Resolving references

Resolving a file replaces every name of a type by the full name with a leading dot, and settles the
type code of every field: a named type is a message, a group or an enum, whatever code was given, and
a field without named type and without a known scalar code is a double.
-/

namespace SchemaTree.Pool

open Descriptor

def namedCode (code : Int) : Entry → Int
  | .enum _ => enumCode
  | _ => if code = groupCode then groupCode else messageCode

/-! ### Resolving -/

def resolveType? (view : View) (scope : String) (field : Field) : Option Field :=
  if field.typeName = "" then
    (scalarCode? field.typeCode).map fun typeCode => { field with typeCode }
  else
    (view.resolve? .type (qualify scope field.name) field.typeName).map fun d =>
      { field with typeCode := namedCode field.typeCode d.entry, typeName := absolute d.name }

/-- Resolves the type and the extended message of an extension. -/
def resolveExtension? (view : View) (scope : String) (field : Field) : Option Field := do
  let extended ← view.resolve? .message (qualify scope field.name) (field.extendee.getD "")
  resolveType? view scope { field with extendee := some (absolute extended.name) }

def resolveMethod? (view : View) (scope : String) (m : Method) : Option Method := do
  let input ← view.resolve? .message (qualify scope m.name) m.input
  let output ← view.resolve? .message (qualify scope m.name) m.output
  some { m with input := absolute input.name, output := absolute output.name }

def resolveService? (view : View) (scope : String) (s : Service) : Option Service := do
  some { s with methods := ← s.methods.mapM (resolveMethod? view (qualify scope s.name)) }

/-- Resolves the references of a message, those of nested messages apart. -/
def resolveMessage? (view : View) (fullName : String) (m : Message) : Option Message := do
  some { m with
    fields := ← m.fields.mapM (resolveType? view fullName)
    extensions := ← m.extensions.mapM (resolveExtension? view fullName) }

def resolveFile? (view : View) (file : File) : Option File := do
  some { file with
    messages := ← Message.traverseAll? (resolveMessage? view) file.package file.messages
    services := ← file.services.mapM (resolveService? view file.package)
    extensions := ← file.extensions.mapM (resolveExtension? view file.package) }

end SchemaTree.Pool
