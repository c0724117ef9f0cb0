import SchemaTree.Disk
import SchemaTree.Standard.Files

/-!
# Finding sources

The source of a file is looked for by the name of the file: among the sources in memory, then in each
directory of the import paths, then among the standard files. A path that is asked for is first turned
into such a name.
-/

namespace SchemaTree.Loader

/-- Where sources are looked for. -/
structure Config where
  /-- Directories searched for files, in order. -/
  importPaths : List String := ["."]
  /-- Sources by file name, no name twice. -/
  contents : List (String × String) := []
deriving DecidableEq, Repr

namespace Config

def addImportPath (config : Config) (path : String) : Config :=
  { config with importPaths := config.importPaths ++ [path] }

/-- Adds a source in memory, in place of one of the same name. -/
def addContent (config : Config) (name source : String) : Config :=
  { config with contents := config.contents.filter (·.1 != name) ++ [(name, source)] }

/-- The names of the sources in memory in ascending order. -/
def contentNames (config : Config) : List String :=
  (config.contents.map (·.1)).mergeSort fun a b => !decide (b < a)

end Config

/-! ### Obstacles -/

/-- Why a source cannot be compiled. -/
inductive Obstacle
  /-- The path names no file that an import could name. -/
  | unnamed (path : String)
  | missing (name : String)
  | unreadable (path : String) (fault : Fault)
  | notText (path : String)
  /-- The name of a path stands for another file. -/
  | shadowed (path name : String)
  | malformed (name : String)
  | cyclic (name : String)
  /-- The file does not fit together with the files it imports. -/
  | misfit (name : String)
deriving DecidableEq, Repr

def Obstacle.text : Obstacle → String
  | unnamed path => "'" ++ path ++ "' is not in any import path"
  | missing name => "import '" ++ name ++ "' not found"
  | unreadable path fault => "error opening file '" ++ path ++ "': " ++ fault.text
  | notText path => "file '" ++ path ++ "' is not UTF-8"
  | shadowed path name => "path '" ++ path ++ "' is shadowed by '" ++ name ++ "' in the import paths"
  | malformed name => "syntax error in '" ++ name ++ "'"
  | cyclic name => "import cycle through '" ++ name ++ "'"
  | misfit name => "'" ++ name ++ "' does not fit together with its imports"

/-! ### From paths to names -/

/-- Drops every leading `./`. -/
def dropHere : List Char → List Char
  | '.' :: '/' :: cs => dropHere cs
  | cs => cs

/-- The name under which a path could be in memory: slashes for backslashes, and no leading `./`. -/
def normalized (path : String) : String :=
  String.ofList (dropHere (path.toList.map fun c => if c = '\\' then '/' else c))

/-- The name of a requested file. -/
structure Request where
  name : String
  /-- A file on disk of that name has to be at the requested path. -/
  isExact : Bool
deriving DecidableEq, Repr

/-- The name that a path relative to one of the import paths stands for. -/
def relativeName? (importPaths : List String) (path : String) : Option String :=
  importPaths.findSome? fun directory =>
    ((Path.ofText path).after? (Path.ofText directory)).bind Path.plainName?

/-- The name that a path stands for: that of a source in memory, that within an import path, or the
path itself. -/
def request? (config : Config) (path : String) : Option Request :=
  if (config.contents.lookup (normalized path)).isSome then some ⟨normalized path, true⟩
  else match relativeName? config.importPaths path with
    | some name => some ⟨name, true⟩
    | none => (Path.ofText path).plainName?.map (⟨·, false⟩)

/-! ### From names to sources -/

/-- The source of a file. -/
structure Opened where
  source : String
  /-- Where on disk the source was found. -/
  path : Option String
deriving DecidableEq, Repr

/-- Looks for a name in directories of the disk, one after the other. -/
def openOnDisk (disk : Disk) (name : String) : List String → Except Obstacle (Option Opened)
  | [] => .ok none
  | directory :: more =>
    let path := joinPaths directory name
    match disk.read path with
    | .error .notFound => openOnDisk disk name more
    | .error fault => .error (.unreadable path fault)
    | .ok bytes =>
      match Wire.utf8? bytes with
      | some source => .ok (some ⟨source, some path⟩)
      | none => .error (.notText path)

def openSource (config : Config) (disk : Disk) (name : String) : Except Obstacle Opened :=
  match config.contents.lookup name with
  | some source => .ok ⟨source, none⟩
  | none => do
    match ← openOnDisk disk name config.importPaths with
    | some opened => .ok opened
    | none =>
      match Standard.text? name with
      | some source => .ok ⟨source, none⟩
      | none => .error (.missing name)

/-- A bound on the number of names that have a source. -/
def nameBound (config : Config) (disk : Disk) : Nat :=
  config.contents.length + disk.nodes.length * config.importPaths.length + Standard.sources.length

end SchemaTree.Loader
