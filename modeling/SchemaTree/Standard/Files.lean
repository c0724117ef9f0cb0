import SchemaTree.Standard.DescriptorFile
import SchemaTree.Standard.TypeFiles

/-!
# All standard files
-/

namespace SchemaTree.Standard

/-- The standard files. -/
def sources : List Source :=
  [any, api, descriptor, duration, empty, fieldMask, sourceContext, struct, timestamp, type, wrappers,
    plugin]

/-- The text of the standard file with a name. -/
def text? (name : String) : Option String := (sources.find? (·.name = name)).map Source.text

end SchemaTree.Standard
