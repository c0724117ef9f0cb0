import SchemaTree.Descriptor.TypeCode
import SchemaTree.Pool.Default
import SchemaTree.Pool.Scope
import SchemaTree.Text.Case

/-!
# Rules on declarations

What the declarations of a file have to satisfy besides that their names can be looked up: the numbers
of fields and values, their names in JSON, and their defaults. Each rule is a test of its own.
-/

namespace SchemaTree.Pool

open Descriptor
open Schema (Dialect)

/-! ### Numbers of fields -/

def maxFieldNumber : Int := 536870911

/-- Whether a number can be that of a field: some numbers are kept for implementations. -/
def isFieldNumber (n : Int) : Bool := 1 ≤ n && n ≤ maxFieldNumber && !(19000 ≤ n && n ≤ 19999)

def inRange (n : Int) (r : Range) : Bool := r.first ≤ n && n < r.stop

/-- Whether an enum range, which includes its end, holds a number. -/
def inEnumRange (n : Int) (r : Range) : Bool := r.first ≤ n && n ≤ r.stop

/-- Whether a field or an extension has a number that a message leaves to it. Only what names an extended
message may, and has to, use the numbers left to extensions. -/
def hasValidNumber (m : Message) (f : Field) : Bool :=
  isFieldNumber f.number && !m.reservedRanges.any (inRange f.number) &&
    (m.extensionRanges.any fun r => inRange f.number r.toRange) == f.extendee.isSome

/-- Whether the fields of a message have valid numbers of their own. -/
def hasValidNumbers (m : Message) : Bool :=
  (m.fields.map (·.number)).Nodup && m.fields.all (hasValidNumber m)

/-- Whether each field in a choice names a choice of its message. -/
def hasValidOneofs (m : Message) : Bool :=
  m.fields.all fun f => match f.oneofIndex with
    | none => true
    | some i => 0 ≤ i && i < m.oneofs.length

/-! ### Names of fields -/

def jsonName (f : Field) : String := f.jsonName.getD (Text.camel f.name)

/-- Whether the fields of a message can be told apart by their names in JSON, and in proto3 also by
their names without case and underscores. -/
def hasDistinctNames (dialect : Dialect) (m : Message) : Bool :=
  (m.fields.map jsonName).Nodup &&
    (dialect = .proto2 || (m.fields.map fun f => Text.squashed f.name).Nodup)

/-! ### Enums -/

/-- Whether an enum may give one number to several values. -/
def allowsAlias (e : Enum) : Bool :=
  match e.options with
  | none => false
  | some options =>
    options.flag allowAliasNumber || options.uninterpreted.any fun o =>
      o.name = [⟨"allow_alias", false⟩] && o.identifier = some "true"

/-- Whether an enum has values, of which in proto3 the first is zero, with numbers of their own outside
the reserved ranges. -/
def isValidEnum (dialect : Dialect) (e : Enum) : Bool :=
  let numbers := e.values.map (·.number)
  !numbers.isEmpty && (dialect = .proto2 || numbers.head? = some 0) &&
    (allowsAlias e || numbers.Nodup) && numbers.all fun n => !e.reservedRanges.any (inEnumRange n)

/-! ### Defaults and extensions -/

/-- The value that a field of a resolved type declares as its default. -/
def declaredValue? (ds : List Declaration) (f : Field) (text : String) : Option Value :=
  if f.typeCode = enumCode then
    ((enum? ds (referent f.typeName)).bind (namedNumber? · text)).map .enum
  else (scalarDefault? f.typeCode text).map .scalar

/-- Whether the declared default of a field, if there is one, can be read. -/
def hasValidDefault (ds : List Declaration) (f : Field) : Bool :=
  match f.defaultText with
  | none => true
  | some text => (declaredValue? ds f text).isSome

/-- The value of a type that was not set: that of an enum is its first declared value. -/
def impliedValue (ds : List Declaration) (f : Field) : Value :=
  if f.typeCode = enumCode then
    .enum (((enum? ds (referent f.typeName)).bind (·.values.head?)).elim 0 (·.number))
  else (Scalar.zero? f.typeCode).elim .message .scalar

/-- The value of a field that was not set: its declared default, or else that of its type. -/
def defaultValue (ds : List Declaration) (f : Field) : Value :=
  (f.defaultText.bind (declaredValue? ds f)).getD (impliedValue ds f)

/-- Whether an extension has a number that the extended message leaves to extensions, and a valid
default. -/
def isValidExtension (ds : List Declaration) (f : Field) : Bool :=
  hasValidDefault ds f &&
    match message? ds (referent (f.extendee.getD "")) with
    | some m => hasValidNumber m f
    | none => false

/-! ### Files -/

/-- Whether a message satisfies all rules, those on nested messages apart. -/
def isValidMessage (ds : List Declaration) (dialect : Dialect) (m : Message) : Bool :=
  hasValidNumbers m && hasValidOneofs m && hasDistinctNames dialect m &&
    m.fields.all (hasValidDefault ds) && m.extensions.all (isValidExtension ds) &&
    m.enums.all (isValidEnum dialect)

/-- Whether positions among the imports of a file are positions of imports. -/
def areImports (file : File) (positions : List Int) : Bool :=
  positions.all fun i => 0 ≤ i && i < file.imports.length

/-- Whether a file of resolved references satisfies all rules. -/
def isValidFile (ds : List Declaration) (file : File) : Bool :=
  let dialect := dialectOf file
  file.messageTree.all (fun (_, m) => isValidMessage ds dialect m) &&
    file.enums.all (isValidEnum dialect) && file.extensions.all (isValidExtension ds)

end SchemaTree.Pool
