import SchemaTree.Schema.FieldLine
import SchemaTree.Walk

/-!
# Outlines

The outline of a file holds what its text tree shows, and the field numbers, as data. It is built by
a visitor that keeps the unfinished messages on a stack and puts each finished element into the
innermost unfinished message, or into the file if there is none.
-/

namespace SchemaTree.Outline

open Schema (Enum Service)

structure Field where
  name : String
  number : UInt32
  /-- The word for the kind. -/
  type : String
  marker : Char
  defaultClause : Option String
deriving DecidableEq, Repr, Inhabited

structure Message where
  name : String
  fields : List Field
  messages : List Message
  enums : List Enum
deriving Repr, Inhabited

structure File where
  name : String
  /-- The word for the dialect. -/
  dialect : String
  package : String
  imports : List String
  messages : List Message
  enums : List Enum
  services : List Service
deriving Repr, Inhabited

def Field.of (field : Schema.Field) : Field :=
  { name := field.name
    number := field.number
    type := field.kind.token
    marker := field.marker.char
    defaultClause := field.defaultClause? }

/-! ### The visitor -/

/-- Outlines under construction: finished files, the open file, and the open messages with the
innermost one first. -/
structure Builder where
  finished : List File := []
  current : Option File := none
  stack : List Message := []

namespace Builder

/-- Puts an element into the innermost open message, or else into the open file. -/
def attach (b : Builder) (inMessage : Message → Message) (inFile : File → File) : Builder :=
  match b.stack with
  | m :: rest => { b with stack := inMessage m :: rest }
  | [] => { b with current := b.current.map inFile }

def beginFile (b : Builder) (file : Schema.File) : Builder :=
  { b with current := some ⟨file.name, file.dialect.token, file.package, file.imports, [], [], []⟩ }

def endFile (b : Builder) : Builder :=
  match b.current with
  | some file => { b with finished := b.finished ++ [file], current := none }
  | none => b

def beginMessage (b : Builder) (message : Schema.Message) : Builder :=
  { b with stack := ⟨message.name, [], [], []⟩ :: b.stack }

def field (b : Builder) (field : Schema.Field) : Builder :=
  match b.stack with
  | m :: rest => { b with stack := { m with fields := m.fields ++ [.of field] } :: rest }
  | [] => b

/-- Closes the innermost open message and attaches it to what encloses it. -/
def endMessage (b : Builder) : Builder :=
  match b.stack with
  | m :: rest =>
    { b with stack := rest }.attach (fun p => { p with messages := p.messages ++ [m] })
      (fun f => { f with messages := f.messages ++ [m] })
  | [] => b

def enum (b : Builder) (enum : Enum) : Builder :=
  b.attach (fun m => { m with enums := m.enums ++ [enum] }) (fun f => { f with enums := f.enums ++ [enum] })

def service (b : Builder) (service : Service) : Builder :=
  { b with current := b.current.map fun f => { f with services := f.services ++ [service] } }

end Builder

def builder : Visitor Builder where
  beginFile file b := b.beginFile file
  endFile _ b := b.endFile
  beginMessage message _ b := b.beginMessage message
  field field _ b := b.field field
  endMessage _ _ b := b.endMessage
  enum enum _ b := b.enum enum
  service service _ b := b.service service

/-- The outlines of the files of a registry, in the order of the names. -/
def ofRegistry (registry : Registry) : List File := (walk builder registry {}).finished

end SchemaTree.Outline
