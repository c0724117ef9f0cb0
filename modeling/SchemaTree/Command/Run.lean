import SchemaTree.Command.Arguments
import SchemaTree.Loader.Load
import SchemaTree.Outline.Document
import SchemaTree.Stats
import SchemaTree.Tree

/-!
# Running the command

A run loads its inputs into an empty registry and shows the registry as text or as JSON, on standard
output or in a file. Nothing is delivered before everything is loaded. In a directory the files that
cannot be read or compiled are left out with a warning; any other failure ends the run. A text that
would be too long breaks the run off.
-/

namespace SchemaTree.Command

/-! ### Setbacks -/

/-- Why a run delivers nothing. -/
inductive Setback
  | missingDirectory (path : String)
  | notDirectory (path : String)
  | noInputs (extension path : String)
  | notFile (path : String)
  | setNotLoaded (path : String) (cause : Failure)
  | sourceNotLoaded (path : String) (cause : Failure)
  | nothingLoaded
  | notWritten (path : String) (fault : Fault)
  | notPrinted (fault : String)
deriving DecidableEq, Repr

namespace Setback

def text : Setback → String
  | missingDirectory path => "Directory does not exist: " ++ path
  | notDirectory path => "Path is not a directory: " ++ path
  | noInputs ext path => "No ." ++ ext ++ " files found under " ++ path
  | notFile path => "Input path is not a file: " ++ path
  | setNotLoaded path _ => "Failed to load descriptor set: " ++ path
  | sourceNotLoaded path _ => "Failed to parse proto file: " ++ path
  | nothingLoaded => "No schema files were loaded"
  | notWritten path _ => "Failed to write output file: " ++ path
  | notPrinted _ => "Failed to write to stdout"

def cause? : Setback → Option String
  | setNotLoaded _ failure | sourceNotLoaded _ failure => some failure.message
  | notWritten _ fault => some fault.text
  | notPrinted fault => some fault
  | _ => none

def fullText (s : Setback) : String :=
  match s.cause? with
  | some cause => s.text ++ ": " ++ cause
  | none => s.text

/-- Whether a run over a directory leaves the file out and goes on. -/
def isSkippable : Setback → Bool
  | setNotLoaded _ failure | sourceNotLoaded _ failure => failure.isRecoverable
  | _ => false

end Setback

/-! ### Loading inputs -/

/-- A registry that is being filled, and the notes on that so far. -/
structure Progress where
  registry : Registry := ∅
  notes : List Note := []

namespace Progress

def note (p : Progress) (level : Level) (text : String) : Progress :=
  { p with notes := p.notes ++ [⟨level, text⟩] }

def apply (p : Progress) (load : Load) : Progress :=
  ⟨load.run p.registry, p.notes ++ load.notes p.registry⟩

end Progress

/-- What loading inputs comes to. -/
abbrev Loaded := Progress × Except Setback Unit

def loadFile (disk : Disk) (takesSets : Bool) (importPaths : List String) (p : Progress) (path : String) :
    Loaded :=
  if takesSets then
    let load := Loader.loadSetFile disk path
    let p := p.apply load
    match load.outcome with
    | .ok n => (p.note .debug ("Loaded " ++ Text.natText n ++ " file(s) from " ++ path), .ok ())
    | .error failure => (p, .error (.setNotLoaded path failure))
  else if !disk.isFile path then (p, .error (.notFile path))
  else
    let load := Loader.parseFile { importPaths } disk path
    ((p.note .trace ("Parsing " ++ path)).apply load,
      match load.outcome with
      | .ok _ => .ok ()
      | .error failure => .error (.sourceNotLoaded path failure))

def loadFiles (disk : Disk) (takesSets : Bool) (importPaths : List String) :
    Progress → List String → Loaded
  | p, [] => (p, .ok ())
  | p, path :: paths =>
    match loadFile disk takesSets importPaths p path with
    | (p, .ok ()) => loadFiles disk takesSets importPaths p paths
    | (p, .error setback) => (p, .error setback)

/-- Loads files and leaves out those whose failure can be skipped. -/
def loadSkipping (disk : Disk) (takesSets : Bool) (importPaths : List String) :
    Progress → List String → Loaded
  | p, [] => (p, .ok ())
  | p, path :: paths =>
    match loadFile disk takesSets importPaths p path with
    | (p, .ok ()) => loadSkipping disk takesSets importPaths p paths
    | (p, .error setback) =>
      if setback.isSkippable then
        loadSkipping disk takesSets importPaths
          (p.note .warn ("Skipping " ++ path ++ ": " ++ setback.fullText)) paths
      else (p, .error setback)

/-! ### Directories -/

/-- The extension of a file name: what follows its last dot, if anything precedes that dot. -/
def extension? (name : String) : Option String :=
  match Text.parts '.' name with
  | [] | [_] => none
  | parts =>
    -- A name whose only dot comes first has no extension.
    if parts.dropLast = [""] then none else parts.getLast?

/-- Whether a file name has an extension, in any case of its letters. -/
def hasExtension (ext name : String) : Bool := (extension? name).any fun e => Text.lower e = ext

def componentsLe (a b : List String) : Bool :=
  match a, b with
  | [], _ => true
  | _ :: _, [] => false
  | x :: xs, y :: ys => if x = y then componentsLe xs ys else x < y

/-- The components, below a directory, of the files in it at any depth that have an extension. -/
def filesBelow (disk : Disk) (ext : String) (directory : List String) : List (List String) :=
  (disk.nodes.filterMap fun (parts, node) =>
    match node with
    | .file _ =>
      if directory.isPrefixOf parts && parts.getLast?.any (hasExtension ext) then
        some (parts.drop directory.length)
      else none
    | .directory => none).mergeSort componentsLe

/-- The paths of the files in a directory that have an extension and can be reached, in the order of
their components. -/
def filesUnder (disk : Disk) (ext path : String) : List String :=
  match disk.locate path with
  | .ok directory => ((filesBelow disk ext directory).map (·.foldl joinPaths path)).filter disk.isFile
  | .error _ => []

def loadDirectory (disk : Disk) (takesSets : Bool) (importPaths : List String) (p : Progress)
    (path : String) : Loaded :=
  if !disk.exists? path then (p, .error (.missingDirectory path))
  else if !disk.isDirectory path then (p, .error (.notDirectory path))
  else
    let p := p.note .info ("Scanning directory: " ++ path)
    let ext := if takesSets then "pb" else "proto"
    match filesUnder disk ext path with
    | [] => (p, .error (.noInputs ext path))
    | file :: files =>
      let paths := file :: files
      let p := p.note .debug ("Found " ++ Text.natText paths.length ++ " schema file(s)")
      -- Imports are looked for in the directory itself before anywhere else.
      loadSkipping disk takesSets (path :: importPaths) p paths

/-- Loads what the arguments name; there has to be something. -/
def load (disk : Disk) (a : Arguments) : Loaded :=
  let (p, result) := match a.input with
    | .files paths => loadFiles disk a.takesSets a.importPaths {} paths
    | .directory path => loadDirectory disk a.takesSets a.importPaths {} path
  match result with
  | .error setback => (p, .error setback)
  | .ok () => if p.registry.isEmpty then (p, .error .nothingLoaded) else (p, .ok ())

/-! ### Delivery -/

/-- A text has fewer bytes than this, whatever memory there is. -/
def textBound : Nat := Width.size 63

/-- The text that shows a registry. There is none if it would have too many bytes, or the indent in it
would, even if no line is indented. -/
def render? (a : Arguments) (registry : Registry) : Option String :=
  let text? := match a.format with
    | .text =>
      if a.indent < textBound then
        some (Tree.text (String.ofList (List.replicate a.indent ' ')) registry)
      else none
    | .json => some (Outline.json registry ++ "\n")
  text?.filter fun text => text.utf8ByteSize < textBound

def summary (registry : Registry) : String :=
  let s := Stats.ofRegistry registry
  "Summary: " ++ Text.natText s.files ++ " files, " ++ Text.natText s.messages ++ " messages, " ++
    Text.natText s.fields ++ " fields, " ++ Text.natText s.enums ++ " enums, " ++
    Text.natText s.services ++ " services, " ++ Text.natText s.methods ++ " methods"

structure Written where
  path : String
  text : String
deriving DecidableEq, Repr

/-- What a run comes to. -/
structure Outcome where
  /-- The status of the command. -/
  code : Nat
  /-- What standard output has taken, if it has taken everything. -/
  stdout : String := ""
  written : Option Written := none
  setback : Option Setback := none
  /-- All notes, those that nobody asked for included. -/
  notes : List Note := []
deriving DecidableEq, Repr

/-- The status of a run that breaks off. -/
def brokenOff : Nat := 101

/-- Runs the command; `printFault?` is why standard output does not take the text, if it does not. -/
def run (disk : Disk) (a : Arguments) (printFault? : Option String := none) : Outcome :=
  match load disk a with
  | (p, .error setback) => { code := 1, setback := some setback, notes := p.notes }
  | (p, .ok ()) =>
    let p := p.note .info (summary p.registry)
    match render? a p.registry with
    | none => { code := brokenOff, notes := p.notes }
    | some text =>
      match a.output with
      | none =>
        match printFault? with
        | none => { code := 0, stdout := text, notes := p.notes }
        | some fault => { code := 1, setback := some (.notPrinted fault), notes := p.notes }
      | some path =>
        match disk.write path (Wire.textBytes text) with
        | .error fault => { code := 1, setback := some (.notWritten path fault), notes := p.notes }
        | .ok _ =>
          { code := 0, written := some ⟨path, text⟩, notes := (p.note .info ("Wrote " ++ path)).notes }

def Outcome.disk (outcome : Outcome) (disk : Disk) : Disk :=
  match outcome.written with
  | none => disk
  | some w => (disk.write w.path (Wire.textBytes w.text)).toOption.getD disk

/-! ### Notes that are shown -/

/-- The levels from warnings on; a note is shown if it was asked for at least as often. -/
def rank : Level → Nat
  | .warn => 0
  | .info => 1
  | .debug => 2
  | .trace => 3

/-- The word for a level. -/
def levelWord : Level → String
  | .warn => "WARN"
  | .info => "INFO"
  | .debug => "DEBUG"
  | .trace => "TRACE"

/-- The written form of a character in a note: characters that control a terminal are escaped. -/
def noteChar (c : Char) : List Char :=
  let n := c.toNat
  if n = 0x1b ∨ n = 0x07 ∨ n = 0x08 ∨ n = 0x0c ∨ n = 0x7f then '\\' :: 'x' :: Text.hexPair n
  else if 0x80 ≤ n ∧ n ≤ 0x9f then ['\\', 'u', '\x7b'] ++ Text.hexPair n ++ ['\x7d']
  else [c]

/-- The line of a note. -/
def noteLine (note : Note) : String :=
  levelWord note.level ++ " " ++ String.ofList (note.text.toList.flatMap noteChar)

def shownNotes (verbosity : Nat) (notes : List Note) : List Note :=
  notes.filter fun note => rank note.level ≤ verbosity

/-! ### The whole command -/

def versionText : String := "protree 0.1.0\n"

def usageText : String :=
  "Usage: protree [OPTIONS] <FILES...|--directory <DIRECTORY>>\n"

structure Answer where
  outcome : Outcome
  /-- The lines of the notes that are shown. -/
  log : List String := []

/-- Runs the command with arguments as they were typed. -/
def answer (disk : Disk) (arguments : List String) (printFault? : Option String := none) : Answer :=
  match Arguments.read arguments with
  | .error .version => ⟨{ code := 0, stdout := versionText }, []⟩
  | .error .help => ⟨{ code := 0, stdout := usageText }, []⟩
  | .error .misuse => ⟨{ code := 2 }, []⟩
  | .ok a =>
    let outcome := run disk a printFault?
    ⟨outcome, (shownNotes a.verbosity outcome.notes).map noteLine⟩

end SchemaTree.Command
