import SchemaTree.Descriptor.Nested
import SchemaTree.Schema.Basic
import SchemaTree.Text.Parts

/-!
# The declarations of a file by full name

Messages, fields, choices, enums, values, extensions, services, methods and packages share one space of
full names. The values of an enum are named beside the enum, not inside it. Only packages may be
declared more than once.
-/

namespace SchemaTree.Pool

open Descriptor
open Schema (Dialect)

/-! ### Declarations -/

/-- What a full name stands for. -/
inductive Entry
  | package
  | message (message : Message)
  | enum (enum : Enum)
  | extension (field : Field)
  | service
  /-- A field, a choice, a value of an enum or a method. -/
  | member
deriving Repr, Inhabited

/-- A full name, and where and as what it is declared. -/
structure Declaration where
  name : String
  file : String
  dialect : Dialect
  entry : Entry
deriving Repr, Inhabited

/-- The dialect of a declared file; an unknown word counts as proto2. -/
def dialectOf (file : File) : Dialect := if file.dialect = some "proto3" then .proto3 else .proto2

def hasKnownDialect (file : File) : Bool :=
  match file.dialect with
  | none | some "proto2" | some "proto3" => true
  | some _ => false

/-! ### Lists of declarations -/

/-- The packages that a package name is made of: the package itself and those around it. -/
def packageNames (package : String) : List String :=
  if package = "" then [] else go "" (Text.parts '.' package)
where
  /-- The names that further parts make up after a first part. -/
  go (start : String) : List String → List String
    | [] => []
    | part :: parts => (start ++ part) :: go (start ++ part ++ ".") parts

def enumEntries (scope : String) (e : Enum) : List (String × Entry) :=
  (qualify scope e.name, .enum e) :: e.values.map fun v => (qualify scope v.name, .member)

def extensionEntries (scope : String) (fields : List Field) : List (String × Entry) :=
  fields.map fun f => (qualify scope f.name, .extension f)

/-- A message and all declarations in it but the messages. -/
def messageEntries (fullName : String) (m : Message) : List (String × Entry) :=
  (fullName, .message m) ::
    (m.fields.map fun f => (qualify fullName f.name, .member)) ++
    (m.oneofs.map fun o => (qualify fullName o.name, .member)) ++
    extensionEntries fullName m.extensions ++
    m.enums.flatMap (enumEntries fullName)

def serviceEntries (scope : String) (s : Service) : List (String × Entry) :=
  (qualify scope s.name, .service) ::
    s.methods.map fun m => (qualify (qualify scope s.name) m.name, .member)

def entries (file : File) : List (String × Entry) :=
  (packageNames file.package).map (·, .package) ++
    file.messageTree.flatMap (fun (name, m) => messageEntries name m) ++
    file.enums.flatMap (enumEntries file.package) ++
    extensionEntries file.package file.extensions ++
    file.services.flatMap (serviceEntries file.package)

def declarationsOf (file : File) : List Declaration :=
  (entries file).map fun (name, entry) => ⟨name, file.name, dialectOf file, entry⟩

/-! ### Distinct names -/

def Declaration.isPackage (d : Declaration) : Bool :=
  match d.entry with
  | .package => true
  | _ => false

/-- Whether every name is declared once, packages apart, and no package shares its name. -/
def distinct (ds : List Declaration) : Bool :=
  let packages := (ds.filter Declaration.isPackage).map (·.name)
  let others := (ds.filter (!·.isPackage)).map (·.name)
  others.Nodup && packages.all (!others.contains ·)

/-! ### Looking up -/

def find? (ds : List Declaration) (name : String) : Option Declaration := ds.find? (·.name = name)

def enum? (ds : List Declaration) (name : String) : Option Enum :=
  match find? ds name with
  | some ⟨_, _, _, .enum e⟩ => some e
  | _ => none

def message? (ds : List Declaration) (name : String) : Option Message :=
  match find? ds name with
  | some ⟨_, _, _, .message m⟩ => some m
  | _ => none

end SchemaTree.Pool
