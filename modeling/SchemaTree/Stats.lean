import SchemaTree.Walk

/-!
# Counts

How many files, messages, fields, enums, services and methods a registry holds, nested ones included.
-/

namespace SchemaTree

structure Stats where
  files : Nat := 0
  messages : Nat := 0
  fields : Nat := 0
  enums : Nat := 0
  services : Nat := 0
  methods : Nat := 0
deriving DecidableEq, Repr, Inhabited

namespace Stats

def counter : Visitor Stats where
  beginFile _ s := { s with files := s.files + 1 }
  beginMessage _ _ s := { s with messages := s.messages + 1 }
  field _ _ s := { s with fields := s.fields + 1 }
  enum _ _ s := { s with enums := s.enums + 1 }
  service service _ s :=
    { s with services := s.services + 1, methods := s.methods + service.methods.length }

def ofRegistry (registry : Registry) : Stats := walk counter registry {}

end Stats
end SchemaTree
