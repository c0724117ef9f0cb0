import SchemaTree.Proofs.Descriptor.Bare
import SchemaTree.Proofs.Snapshot.Messages

/-!
# Full names in a snapshot

A snapshot keeps full names for messages only, and that of an enum follows from them. Both are the full
names of the linked file, and each is made up of the full name around it and its own name.
-/

namespace SchemaTree

/-- The full names of the enums of a file, those in its messages first. -/
def Schema.File.enumNames (file : Schema.File) : List String :=
  file.messageTree.flatMap (fun m => m.enums.map fun e => Descriptor.qualify m.fullName e.name) ++
    file.enums.map fun e => Descriptor.qualify file.package e.name

namespace Snapshot
open Descriptor
open Pool (Declaration)
open Schema (Dialect)

/-- Whether the full names of messages are made up of a scope and their names, and those of the messages
nested in them in turn of theirs. -/
structure Qualified (scope : String) (outer all : List Schema.Message) : Prop where
  outer : ∀ m ∈ outer, m.fullName = qualify scope m.name
  nested : ∀ m ∈ all, ∀ n ∈ m.messages, n.fullName = qualify m.fullName n.name

section
variable {ds : List Declaration} {file : String} {dialect : Dialect}

mutual

theorem message_qualified : ∀ (scope : String) (level : Nat) (m : Message) (s : Schema.Message),
    message ds file dialect scope level m = .ok s → Qualified scope [s] s.tree
  | scope, level, ⟨name, fields, _, messages, enums, _, _, _, _, _⟩, s, h => by
    simp only [message] at h
    split at h
    · cases h
    · obtain ⟨shown, _, h⟩ := bind_eq_ok h
      obtain ⟨nested, hnested, h⟩ := bind_eq_ok h
      cases h
      obtain ⟨houter, hinner⟩ := messageList_qualified _ _ messages nested hnested
      refine ⟨?_, ?_⟩
      · intro m hm
        rw [List.mem_singleton.mp hm]
      · exact List.forall_mem_cons.mpr ⟨houter, hinner⟩

theorem messageList_qualified : ∀ (scope : String) (level : Nat) (ms : List Message)
    (ss : List Schema.Message), messageList ds file dialect scope level ms = .ok ss →
      Qualified scope ss (Schema.Message.trees ss)
  | _, _, [], ss, h => by
    cases h
    exact ⟨nofun, nofun⟩
  | scope, level, m :: ms, ss, h => by
    simp only [messageList] at h
    obtain ⟨first, hfirst, h⟩ := bind_eq_ok h
    obtain ⟨rest, hrest, h⟩ := bind_eq_ok h
    cases h
    obtain ⟨houter, hnested⟩ := message_qualified scope level m first hfirst
    obtain ⟨houters, hnesteds⟩ := messageList_qualified scope level ms rest hrest
    exact ⟨List.forall_mem_cons.mpr ⟨houter first List.mem_cons_self, houters⟩,
      List.forall_mem_append.mpr ⟨hnested, hnesteds⟩⟩

end
end

/-- A file and its snapshot have the same package and imports, and their messages and enums the same
full names. -/
structure Named (f : Descriptor.File) (s : Schema.File) : Prop where
  package : s.package = f.package
  imports : s.imports = f.imports
  messages : s.messageTree.map (·.fullName) = f.messageTree.map (·.1)
  enums : s.enumNames = f.enumTree.map (·.1)
  qualified : Qualified s.package s.messages s.messageTree

theorem file_named {ds : List Declaration} {f : Descriptor.File} {s : Schema.File}
    (h : file ds f = .ok s) : Named f s := by
  have hshown := (file_shown h).2
  obtain ⟨messages, hmessages, h⟩ := bind_eq_ok h
  cases h
  have henums (scope : String) (es : List Enum) :
      (es.map enum).map (fun e => qualify scope e.name) = (namedEnums scope es).map (·.1) := by
    simp only [namedEnums, List.map_map, Function.comp_def, enum]
  refine ⟨rfl, rfl, ?_, ?_, messageList_qualified _ _ _ _ hmessages⟩
  · exact map_eq_of_forall₂ hshown fun p m hpm => hpm.fullName
  · rw [Schema.File.enumNames, File.enumTree, List.map_append, henums, List.map_flatMap]
    refine congrArg (· ++ _) (flatMap_eq_of_forall₂ hshown fun p m hpm => ?_)
    rw [hpm.fullName, hpm.enums, henums]

end Snapshot
end SchemaTree
