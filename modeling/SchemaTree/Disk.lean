import SchemaTree.Text.Parts
import SchemaTree.Wire

/-!
# Files on disk

A disk is a tree of files and directories; one of these is the working directory, in which relative paths
start. A path is looked up component by component: `.` stays, `..` leaves a directory, and any other
component has to be in the directory reached so far. There are no links, so every place has one name.
-/

namespace SchemaTree

/-! ### Paths -/

/-- A path, taken apart at its slashes. -/
structure Path where
  isAbsolute : Bool
  /-- The components other than `.`. -/
  parts : List String
  /-- The first component is `.`. -/
  startsHere : Bool
  /-- The path ends in a slash or in `.`, so that it can only mean a directory. -/
  meansDirectory : Bool
deriving DecidableEq, Repr

namespace Path

def ofText (text : String) : Path :=
  let components := Text.parts '/' text
  let isAbsolute := Text.startsWithChar text '/'
  { isAbsolute
    parts := components.filter fun c => c != "" && c != "."
    startsHere := !isAbsolute && components.head? = some "."
    meansDirectory := text != "" && (components.getLast?.any fun c => c = "" || c = ".") }

/-- The components that a path is walked by. -/
def steps (text : String) : List String := (Text.parts '/' text).filter (· != "")

/-- Whether two paths have the same components, those that stay in place apart. -/
def matchesPath (a b : Path) : Bool := a.isAbsolute = b.isAbsolute && a.parts = b.parts

/-- The components after those of another path, if the path starts with them. -/
def after? (path start : Path) : Option Path :=
  if start.isAbsolute = path.isAbsolute || (start.parts.isEmpty && !start.isAbsolute) then
    if start.parts.isPrefixOf path.parts then
      some { path with
        isAbsolute := path.isAbsolute && !start.isAbsolute
        parts := path.parts.drop start.parts.length
        startsHere := false }
    else none
  else none

/-- The name that a path has as a list of plain components, if it has no others. -/
def plainName? (path : Path) : Option String :=
  if path.isAbsolute || path.startsHere || path.parts.isEmpty || path.parts.contains ".." then none
  else some (String.intercalate "/" path.parts)

end Path

def joinPaths (directory name : String) : String :=
  if directory = "" || Text.endsWithChar directory '/' then directory ++ name else directory ++ "/" ++ name

/-! ### Disks -/

/-- What a path can stand for. -/
inductive Node
  | file (contents : Bytes)
  | directory
deriving DecidableEq, Repr

/-- Why a path cannot be read or written. -/
inductive Fault
  | notFound
  | denied
  | notDirectory
  | isDirectory
  | nameTooLong
  | nul
deriving DecidableEq, Repr

def Fault.text : Fault → String
  | notFound => "No such file or directory (os error 2)"
  | denied => "Permission denied (os error 13)"
  | notDirectory => "Not a directory (os error 20)"
  | isDirectory => "Is a directory (os error 21)"
  | nameTooLong => "File name too long (os error 36)"
  | nul => "file name contained an unexpected NUL byte"

/-- Files and directories by their components from the root. -/
structure Disk where
  nodes : List (List String × Node) := []
  /-- The working directory. -/
  home : List String := []
  /-- Places to which there is no access: a file there cannot be opened, a directory not entered. -/
  locked : List (List String) := []
deriving Repr, Inhabited

namespace Disk

/-- What is at some components; a directory is also where another node lies inside, or the working
directory. -/
def node? (disk : Disk) (parts : List String) : Option Node :=
  match disk.nodes.lookup parts with
  | some node => some node
  | none =>
    if parts.isPrefixOf disk.home || disk.nodes.any fun (other, _) => parts.isPrefixOf other then
      some .directory
    else none

/-- The disk with a node at a place, to which there is access. -/
def put (disk : Disk) (parts : List String) (node : Node) : Disk :=
  { disk with
    nodes := disk.nodes.filter (·.1 != parts) ++ [(parts, node)]
    locked := disk.locked.filter (· != parts) }

/-- A disk with nodes at paths below the working directory. -/
def ofNodes (home : List String) (nodes : List (String × Node)) : Disk :=
  nodes.foldl (fun disk (path, node) => disk.put (home ++ (Path.ofText path).parts) node) { home }

/-! ### Walking a path -/

def maxComponent : Nat := 255

def maxPath : Nat := 4095

/-- Goes from a place to the one that a component leads to. -/
def step (disk : Disk) (place : List String) (part : String) : Except Fault (List String) :=
  match disk.node? place with
  | none => .error .notFound
  | some (.file _) => .error .notDirectory
  | some .directory =>
    if disk.locked.contains place then .error .denied
    else if part = "." then .ok place
    -- The directory around the root is the root.
    else if part = ".." then .ok place.dropLast
    else if maxComponent < part.utf8ByteSize then .error .nameTooLong
    else if (disk.node? (place ++ [part])).isSome then .ok (place ++ [part])
    else .error .notFound

/-- Where a path starts. -/
def start (disk : Disk) (text : String) : List String :=
  if Text.startsWithChar text '/' then [] else disk.home

/-- The place that a path leads to. -/
def locate (disk : Disk) (text : String) : Except Fault (List String) :=
  if text.toList.contains '\x00' then .error .nul
  else if text = "" then .error .notFound
  else if maxPath < text.utf8ByteSize then .error .nameTooLong
  else (Path.steps text).foldlM disk.step (disk.start text)

/-- The place that a path leads to, and what is there. -/
def look (disk : Disk) (text : String) : Except Fault (List String × Node) := do
  let place ← disk.locate text
  match disk.node? place with
  | none => .error .notFound
  | some .directory => .ok (place, .directory)
  | some (.file contents) =>
    if (Path.ofText text).meansDirectory then .error .notDirectory else .ok (place, .file contents)

def read (disk : Disk) (text : String) : Except Fault Bytes := do
  let (place, node) ← disk.look text
  if disk.locked.contains place then .error .denied
  else match node with
    | .file contents => .ok contents
    | .directory => .error .isDirectory

def isFile (disk : Disk) (text : String) : Bool :=
  match disk.look text with
  | .ok (_, .file _) => true
  | _ => false

def isDirectory (disk : Disk) (text : String) : Bool :=
  match disk.look text with
  | .ok (_, .directory) => true
  | _ => false

def exists? (disk : Disk) (text : String) : Bool := disk.isFile text || disk.isDirectory text

/-! ### Writing -/

/-- The disk after a file has been written at a path; the directory has to be there. -/
def write (disk : Disk) (text : String) (contents : Bytes) : Except Fault Disk :=
  match disk.look text with
  | .ok (_, .directory) => .error .isDirectory
  | .ok (place, .file _) =>
    if disk.locked.contains place then .error .denied else .ok (disk.put place (.file contents))
  | .error .notFound => do
    let outer ← (Path.steps text).dropLast.foldlM disk.step (disk.start text)
    if (Path.ofText text).meansDirectory then .error .isDirectory
    else match (Path.steps text).getLast? with
      | some name => .ok (disk.put (outer ++ [name]) (.file contents))
      | none => .error .notFound
  | .error fault => .error fault

end Disk
end SchemaTree
