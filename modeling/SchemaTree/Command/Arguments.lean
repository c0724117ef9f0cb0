import SchemaTree.Text.Integer
import SchemaTree.Width

/-!
# Arguments of the command

Arguments are read from left to right: options in their long and short forms, short ones perhaps in one
word, and everything else as a file to show. What asks for the version ends the reading at once, and so
does the first mistake; whether files or a directory were named is judged at the end.
-/

namespace SchemaTree.Command

/-! ### Arguments -/

inductive Format
  | text
  | json
deriving DecidableEq, Repr

inductive Input
  | files (paths : List String)
  | directory (path : String)
deriving DecidableEq, Repr

structure Arguments where
  input : Input
  importPaths : List String := ["."]
  /-- The inputs are encoded descriptor sets. -/
  takesSets : Bool := false
  format : Format := .text
  /-- The file to write to; standard output if there is none. -/
  output : Option String := none
  /-- Blanks for each level of nesting. -/
  indent : Nat := 4
  /-- How often more notes were asked for. -/
  verbosity : Nat := 0
deriving DecidableEq, Repr

/-- Why there are no arguments to run with. -/
inductive Halt
  | version
  | help
  | misuse
deriving DecidableEq, Repr

/-! ### Options -/

inductive ValueOption
  | directory
  | importPath
  | format
  | output
  | indent
deriving DecidableEq, Repr

inductive Switch
  | takesSets
  | verbose
  | version
  | help
deriving DecidableEq, Repr

inductive OptionName
  | valued (option : ValueOption)
  | switch (switch : Switch)
deriving DecidableEq, Repr

def OptionName.ofWord? : String → Option OptionName
  | "directory" => some (.valued .directory)
  | "import-path" => some (.valued .importPath)
  | "format" => some (.valued .format)
  | "output" => some (.valued .output)
  | "indent" => some (.valued .indent)
  | "descriptor-set" => some (.switch .takesSets)
  | "verbose" => some (.switch .verbose)
  | "version" => some (.switch .version)
  | "help" => some (.switch .help)
  | _ => none

def OptionName.ofLetter? : Char → Option OptionName
  | 'd' => some (.valued .directory)
  | 'I' => some (.valued .importPath)
  | 'o' => some (.valued .output)
  | 'v' => some (.switch .verbose)
  | 'V' => some (.switch .version)
  | 'h' => some (.switch .help)
  | _ => none

/-! ### Collecting -/

/-- What has been read so far; options that were not given are missing. -/
structure Draft where
  files : List String := []
  directory : Option String := none
  importPaths : List String := []
  takesSets : Bool := false
  format : Option Format := none
  output : Option String := none
  indent : Option Nat := none
  verbosity : Nat := 0
deriving Repr

namespace Draft

/-- Sets what may be set once. -/
def once (present : Option α) (value : Option α) : Except Halt (Option α) :=
  match present, value with
  | none, some v => .ok (some v)
  | _, _ => .error .misuse

def path? (text : String) : Option String := if text = "" then none else some text

def format? : String → Option Format
  | "text" => some .text
  | "json" => some .json
  | _ => none

/-- A number of blanks, which has to fit into 64 bits. -/
def indent? (text : String) : Option Nat := (Text.readNat? text).filter (· < Width.size 64)

def addFile (d : Draft) (text : String) : Except Halt Draft :=
  match path? text with
  | some path => .ok { d with files := d.files ++ [path] }
  | none => .error .misuse

def setOption (d : Draft) (option : ValueOption) (text : String) : Except Halt Draft :=
  match option with
  | .directory => (once d.directory (path? text)).map ({ d with directory := · })
  | .importPath =>
    match path? text with
    | some path => .ok { d with importPaths := d.importPaths ++ [path] }
    | none => .error .misuse
  | .format => (once d.format (format? text)).map ({ d with format := · })
  | .output => (once d.output (path? text)).map ({ d with output := · })
  | .indent => (once d.indent (indent? text)).map ({ d with indent := · })

def turnOn (d : Draft) : Switch → Except Halt Draft
  | .takesSets => if d.takesSets then .error .misuse else .ok { d with takesSets := true }
  | .verbose => .ok { d with verbosity := d.verbosity + 1 }
  | .version => .error .version
  | .help => .error .help

/-- The arguments that a draft comes to: either files or a directory, and defaults for the rest. -/
def finish (d : Draft) : Except Halt Arguments :=
  let withInput (input : Input) : Arguments :=
    { input
      importPaths := if d.importPaths.isEmpty then ["."] else d.importPaths
      takesSets := d.takesSets
      format := d.format.getD .text
      output := d.output
      indent := d.indent.getD 4
      verbosity := d.verbosity }
  match d.files, d.directory with
  | [], some directory => .ok (withInput (.directory directory))
  | file :: files, none => .ok (withInput (.files (file :: files)))
  | _, _ => .error .misuse

end Draft

/-! ### Reading -/

/-- Whether an argument has the form of an option; a lone hyphen has not. -/
def isOption (argument : String) : Bool :=
  match argument.toList with
  | '-' :: _ :: _ => true
  | _ => false

def splitEquals (name : List Char) : List Char × Option (List Char) :=
  match name.span (· != '=') with
  | (name, _ :: value) => (name, some value)
  | (name, []) => (name, none)

/-- What an option that has been read still needs. -/
inductive Pending
  | nothing
  | value (option : ValueOption)

/-- Reads a long option without its hyphens. -/
def readLong (d : Draft) (word : List Char) : Except Halt (Draft × Pending) :=
  let (name, value) := splitEquals word
  match OptionName.ofWord? (String.ofList name), value with
  | some (.valued option), some value => do
    pure (← d.setOption option (String.ofList value), .nothing)
  | some (.valued option), none => .ok (d, .value option)
  | some (.switch s), none => do pure (← d.turnOn s, .nothing)
  | _, _ => .error .misuse

/-- Reads short options in one word; the value of an option is the rest of the word, without an equals
sign before it. -/
def readShort (d : Draft) : List Char → Except Halt (Draft × Pending)
  | [] => .ok (d, .nothing)
  | c :: rest =>
    match OptionName.ofLetter? c with
    -- Switches can stand together in one word.
    | some (.switch s) => do readShort (← d.turnOn s) rest
    | some (.valued option) =>
      match rest with
      | [] => .ok (d, .value option)
      | '=' :: value => do pure (← d.setOption option (String.ofList value), .nothing)
      | value => do pure (← d.setOption option (String.ofList value), .nothing)
    | none => .error .misuse

def readOption (d : Draft) (argument : String) : Except Halt (Draft × Pending) :=
  match argument.toList with
  | '-' :: '-' :: word => readLong d word
  | '-' :: letters => readShort d letters
  | _ => .error .misuse

/-- Reads arguments after what an earlier one still needs. -/
def readAll : Draft → Pending → List String → Except Halt Draft
  | d, .nothing, [] => .ok d
  | _, .value _, [] => .error .misuse
  | d, .value option, argument :: rest =>
    if isOption argument then .error .misuse
    else do readAll (← d.setOption option argument) .nothing rest
  | d, .nothing, argument :: rest =>
    if argument = "--" then rest.foldlM Draft.addFile d
    else if isOption argument then do
      let (d, pending) ← readOption d argument
      readAll d pending rest
    else do readAll (← d.addFile argument) .nothing rest

def Arguments.read (arguments : List String) : Except Halt Arguments := do
  (← readAll {} .nothing arguments).finish

end SchemaTree.Command
