import SchemaTree.Pool.Declaration

/-!
# Looking up names

A name with a leading dot is a full name. Any other name is looked up in the scope of the declaration
that uses it and in all scopes around that. A simple name stands for the first declaration of the
wanted sort that the file can see. The first part of a dotted name stands for the first declaration of
that name that can contain others, and the rest has to be found there.
-/

namespace SchemaTree.Pool

open Descriptor

/-! ### Visible files -/

/-- The imports that a file passes on, in the order of its imports. -/
def publicImports (file : File) : List String :=
  file.imports.zipIdx.filterMap fun (name, i) =>
    if file.publicImports.contains (i : Int) then some name else none

/-- Adds the public imports of a file to the visible ones. Those of a file that was visible already
are followed further, at most `fuel` times. -/
def addPublic (files : List File) : (fuel : Nat) → List String → String → List String
  | 0, seen, _ => seen
  | fuel + 1, seen, name =>
    match files.find? (·.name = name) with
    | none => seen
    | some file =>
      (publicImports file).foldl
        (fun seen p => if seen.contains p then addPublic files fuel seen p else seen ++ [p]) seen

/-- The names of the files whose declarations a file can use: its own, those of its imports, and those
of their public imports. -/
def visible (files : List File) (file : File) : List String :=
  file.imports.foldl
    (fun seen name => addPublic files files.length (if seen.contains name then seen else seen ++ [name]) name)
    [file.name]

/-! ### Wanted sorts -/

/-- What a name is looked up for. -/
inductive Wanted
  | message
  | type
  | extension
deriving DecidableEq, Repr

def Wanted.accepts : Wanted → Entry → Bool
  | message, .message _ => true
  | type, .message _ => true
  | type, .enum _ => true
  | extension, .extension _ => true
  | _, _ => false

/-- Whether the first part of a dotted name can stand for an entry. -/
def Entry.isScope : Entry → Bool
  | package | message _ | enum _ | service => true
  | extension _ | member => false

/-! ### Scopes -/

/-- The scopes made up of the parts of a name, given last part first: the whole name, the scopes
around it, and the empty scope. -/
def scopesOfParts : List String → List String
  | [] => [""]
  | part :: outer => String.intercalate "." (part :: outer).reverse :: scopesOfParts outer

/-- The scopes that a name is looked up in from a declaration, the innermost first. -/
def scopes (name : String) : List String :=
  if name = "" then [""] else scopesOfParts (Text.parts '.' name).reverse

/-- The part of a name before its first dot, if it has one. -/
def firstPart? (name : String) : Option String :=
  match Text.parts '.' name with
  | first :: _ :: _ => some first
  | _ => none

/-! ### Looking up -/

/-- Where names are looked up: all declarations, and the files that can be seen. -/
structure View where
  declarations : List Declaration
  visible : List String

namespace View

/-- The declaration with a full name, if it is of the wanted sort and can be seen. -/
def ofFullName? (view : View) (wanted : Wanted) (name : String) : Option Declaration :=
  match find? view.declarations name with
  | some d => if wanted.accepts d.entry && view.visible.contains d.file then some d else none
  | none => none

/-- Whether a full name is that of a declaration that can contain others. -/
def isScope (view : View) (name : String) : Bool :=
  match find? view.declarations name with
  | some d => d.entry.isScope
  | none => false

def resolve? (view : View) (wanted : Wanted) (scope name : String) : Option Declaration :=
  match name.toList with
  | '.' :: full => view.ofFullName? wanted (String.ofList full)
  | _ =>
    -- The first part of a dotted name settles the scope, even if the rest is not found there.
    match firstPart? name with
    | none => (scopes scope).findSome? fun s => view.ofFullName? wanted (qualify s name)
    | some first =>
      match (scopes scope).find? fun s => view.isScope (qualify s first) with
      | some s => view.ofFullName? wanted (qualify s name)
      | none => none

end View
end SchemaTree.Pool
