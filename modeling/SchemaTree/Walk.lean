import SchemaTree.Registry

/-!
# Walking files

A visitor is a set of callbacks on a state. `walk` runs them over every file of a registry in the
order of the names: the messages of a file, each with its fields, then the messages and the enums
nested in it, then the enums of the file, then its services. `events` is the same traversal as data,
one event for each callback.
-/

namespace SchemaTree

open Schema

/-- A part of a file that is announced if it has members. -/
inductive Section
  | messages
  | enums
  | services
deriving DecidableEq, Repr

def Section.title : Section → String
  | messages => "Messages"
  | enums => "Enums"
  | services => "Services"

/-- Callbacks on a state. The depth of the members of a file is 1, and one more for each enclosing
message; the fields of a message have the depth of the message. -/
structure Visitor (σ : Type u) where
  beginFile : File → σ → σ := fun _ s => s
  endFile : File → σ → σ := fun _ s => s
  beginSection : Section → σ → σ := fun _ s => s
  beginMessage : Message → Nat → σ → σ := fun _ _ s => s
  field : Field → Nat → σ → σ := fun _ _ s => s
  endMessage : Message → Nat → σ → σ := fun _ _ s => s
  enum : Enum → Nat → σ → σ := fun _ _ s => s
  service : Service → Nat → σ → σ := fun _ _ s => s

/-! ### The walk -/

mutual

def walkMessage (v : Visitor σ) (depth : Nat) : Message → σ → σ
  | m@⟨_, _, fields, messages, enums⟩, s =>
    let s := v.beginMessage m depth s
    let s := fields.foldl (fun s f => v.field f depth s) s
    let s := walkMessages v (depth + 1) messages s
    let s := enums.foldl (fun s e => v.enum e (depth + 1) s) s
    v.endMessage m depth s

def walkMessages (v : Visitor σ) (depth : Nat) : List Message → σ → σ
  | [], s => s
  | m :: rest, s => walkMessages v depth rest (walkMessage v depth m s)

end

/-- Announces a section and visits its members, if there are any. -/
def walkSection (v : Visitor σ) (title : Section) (members : List α) (visit : List α → σ → σ) (s : σ) :
    σ :=
  if members.isEmpty then s else visit members (v.beginSection title s)

def walkFile (v : Visitor σ) (file : File) (s : σ) : σ :=
  let s := v.beginFile file s
  let s := walkSection v .messages file.messages (walkMessages v 1) s
  let s := walkSection v .enums file.enums (fun es s => es.foldl (fun s e => v.enum e 1 s) s) s
  let s := walkSection v .services file.services (fun xs s => xs.foldl (fun s x => v.service x 1 s) s) s
  v.endFile file s

/-- Walks every file of a registry in the order of the names. -/
def walk (v : Visitor σ) (registry : Registry) (s : σ) : σ :=
  registry.files.foldl (fun s file => walkFile v file s) s

/-! ### The walk as data -/

/-- One callback of a walk. -/
inductive Event
  | beginFile (file : File)
  | endFile (file : File)
  | beginSection (title : Section)
  | beginMessage (message : Message) (depth : Nat)
  | field (field : Field) (depth : Nat)
  | endMessage (message : Message) (depth : Nat)
  | enum (enum : Enum) (depth : Nat)
  | service (service : Service) (depth : Nat)
deriving Repr

def Visitor.step (v : Visitor σ) (s : σ) : Event → σ
  | .beginFile f => v.beginFile f s
  | .endFile f => v.endFile f s
  | .beginSection t => v.beginSection t s
  | .beginMessage m d => v.beginMessage m d s
  | .field f d => v.field f d s
  | .endMessage m d => v.endMessage m d s
  | .enum e d => v.enum e d s
  | .service x d => v.service x d s

mutual

def messageEvents (depth : Nat) : Message → List Event
  | m@⟨_, _, fields, messages, enums⟩ =>
    .beginMessage m depth :: (fields.map fun f => .field f depth) ++ messagesEvents (depth + 1) messages ++
      (enums.map fun e => .enum e (depth + 1)) ++ [.endMessage m depth]

def messagesEvents (depth : Nat) : List Message → List Event
  | [] => []
  | m :: rest => messageEvents depth m ++ messagesEvents depth rest

end

/-- The events of a section: none if it has no members. -/
def sectionEvents (title : Section) (members : List Event) : List Event :=
  if members.isEmpty then [] else .beginSection title :: members

/-- The events of one file. -/
def fileEvents (file : File) : List Event :=
  .beginFile file :: sectionEvents .messages (messagesEvents 1 file.messages) ++
    sectionEvents .enums (file.enums.map fun e => .enum e 1) ++
    sectionEvents .services (file.services.map fun x => .service x 1) ++ [.endFile file]

/-- The events of every file of a registry in the order of the names. -/
def Registry.events (registry : Registry) : List Event := registry.files.flatMap fileEvents

end SchemaTree
