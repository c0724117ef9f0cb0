import SchemaTree.Descriptor.Basic

/-!
# Full names and nested messages

Messages nest to any depth, and the full name of a declaration is made up of the package, the messages
around it and its own name. `Message.tree` lists a message and all messages in it with their full
names, each before those nested in it, and `Message.traverse?` changes every one of them in place.
-/

namespace SchemaTree.Descriptor

/-! ### Full names -/

/-- The full name of a declaration in a scope; the scope of a file without package is empty. -/
def qualify (scope name : String) : String := if scope = "" then name else scope ++ "." ++ name

def absolute (name : String) : String := "." ++ name

def referent (reference : String) : String := String.ofList (reference.toList.drop 1)

/-! ### All messages -/

mutual

/-- A message of a scope and all messages nested in it, with their full names. -/
def Message.tree (scope : String) : Message → List (String × Message)
  | m@⟨name, _, _, messages, _, _, _, _, _, _⟩ =>
    (qualify scope name, m) :: Message.trees (qualify scope name) messages

/-- Messages of a scope and all messages nested in them, with their full names. -/
def Message.trees (scope : String) : List Message → List (String × Message)
  | [] => []
  | m :: ms => Message.tree scope m ++ Message.trees scope ms

end

def File.messageTree (file : File) : List (String × Message) := Message.trees file.package file.messages

mutual

/-- Changes a message and all messages nested in it; `step` gets the full name of each and need not
look at the messages nested in it. -/
def Message.traverse? (step : String → Message → Option Message) (scope : String) :
    Message → Option Message
  | m@⟨name, _, _, messages, _, _, _, _, _, _⟩ => do
    let changed ← step (qualify scope name) m
    some { changed with messages := ← Message.traverseAll? step (qualify scope name) messages }

/-- Changes messages of a scope and all messages nested in them. -/
def Message.traverseAll? (step : String → Message → Option Message) (scope : String) :
    List Message → Option (List Message)
  | [] => some []
  | m :: ms => do
    let changed ← Message.traverse? step scope m
    some (changed :: (← Message.traverseAll? step scope ms))

end

end SchemaTree.Descriptor
