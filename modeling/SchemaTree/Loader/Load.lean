import SchemaTree.Loader.Compilation
import SchemaTree.Registry
import SchemaTree.Snapshot

/-!
# Loading files

A load is what an attempt to load files comes to: notes on its progress, the files it stores, and how
many they are or why it failed. None of that depends on the registry that the files are stored in; what
had been stored before a failure stays.
-/

namespace SchemaTree

/-! ### Notes -/

/-- How much a reader has to want to know to see a note. -/
inductive Level
  | warn
  | info
  | debug
  | trace
deriving DecidableEq, Repr

structure Note where
  level : Level
  text : String
deriving DecidableEq, Repr

/-! ### Loads -/

inductive Load.Event
  | note (note : Note)
  | store (name : String) (file : Schema.File)
deriving Repr

/-- What an attempt to load files comes to. -/
structure Load where
  events : List Load.Event
  /-- The number of files. -/
  outcome : Except Failure Nat

namespace Load

def failed (events : List Event) (failure : Failure) : Load := ⟨events, .error failure⟩

def after (events : List Event) (load : Load) : Load := { load with events := events ++ load.events }

def stores (load : Load) : List (String × Schema.File) :=
  load.events.filterMap fun
    | .store name file => some (name, file)
    | .note _ => none

def run (load : Load) (registry : Registry) : Registry :=
  load.stores.foldl (fun r (name, file) => (r.put name file).2) registry

def storeNote (registry : Registry) (name : String) : Note :=
  let done := if (registry.get? name).isSome then "Replaced registered file " else "Registered file "
  ⟨.debug, done ++ name⟩

/-- The notes on events, and on the files that are stored in a registry. -/
def notesOf : Registry → List Event → List Note
  | _, [] => []
  | registry, .note n :: rest => n :: notesOf registry rest
  | registry, .store name file :: rest =>
    storeNote registry name :: notesOf (registry.put name file).2 rest

def notes (load : Load) (registry : Registry) : List Note := notesOf registry load.events

end Load

/-! ### Storing linked files -/

namespace Loader

def noteEvent (level : Level) (text : String) : Load.Event := .note ⟨level, text⟩

def loadedText (name : String) (file : Schema.File) : String :=
  "Loaded " ++ name ++ " (" ++ Text.natText file.messages.length ++ " messages, " ++
    Text.natText file.enums.length ++ " enums, " ++ Text.natText file.services.length ++ " services)"

/-- Stores the files with some names, one after the other, up to the first that has no snapshot. -/
def storeFiles (pool : Pool) : List String → Load
  | [] => ⟨[], .ok 0⟩
  | name :: names =>
    match pool.file? name with
    | none => .failed [] (.unexpected ("file '" ++ name ++ "' missing from descriptor pool"))
    | some file =>
      let conversions := (Snapshot.visited file).map fun message =>
        noteEvent .trace ("Converting message " ++ message)
      match Snapshot.file pool.declarations file with
      | .error failure => .failed conversions failure
      | .ok snapshot =>
        let rest := storeFiles pool names
        { events := conversions ++
            noteEvent .debug (loadedText name snapshot) :: .store name snapshot :: rest.events
          outcome := rest.outcome.map (· + 1) }

/-- Stores the files with some names, of which there has to be one. -/
def register (pool : Pool) (names : List String) : Load :=
  if names.isEmpty then .failed [] .noFiles else storeFiles pool names

/-! ### Ways to load -/

def loadSet (bytes : Bytes) : Load :=
  match Descriptor.readSet? bytes with
  | none => .failed [] (.undecodable "the bytes are no descriptor set")
  | some files =>
    match ({} : Pool).link? files with
    | none => .failed [] (.unlinkable "the files do not fit together")
    | some pool => register pool (files.map (·.name))

def loadSetFile (disk : Disk) (path : String) : Load :=
  match disk.read path with
  | .error fault => .failed [] (.unreadable path fault.text)
  | .ok bytes =>
    (loadSet bytes).after
      [noteEvent .trace ("Read " ++ Text.natText bytes.length ++ " bytes from " ++ path)]

def compile (config : Config) (disk : Disk) :
    Compilation → List String → List Load.Event × Except Failure Compilation
  | c, [] => ([], .ok c)
  | c, path :: paths =>
    let start := noteEvent .trace ("Compiling " ++ path)
    match c.request config disk path with
    | .error obstacle => ([start], .error (.unparsable path obstacle.text))
    | .ok c =>
      let (events, result) := compile config disk c paths
      (start :: events, result)

/-- Loads the files that paths stand for; the files they import are not stored. -/
def parseFiles (config : Config) (disk : Disk) (paths : List String) : Load :=
  match compile config disk {} paths with
  | (events, .error failure) => .failed events failure
  | (events, .ok c) =>
    -- The files are linked anew, since packed flags are only known once options are interpreted.
    match ({} : Pool).link? c.pool.settled with
    | none => .failed events (.unlinkable "the compiled files do not fit together")
    | some pool => (register pool c.requestedNames).after events

def parseFile (config : Config) (disk : Disk) (path : String) : Load := parseFiles config disk [path]

end Loader
end SchemaTree
