import SchemaTree.Proofs.Descriptor.Depth
import SchemaTree.Proofs.Pool.Bare
import SchemaTree.Proofs.Snapshot.Messages

/-!
# Files that are not nested too deeply have snapshots

The height of a message is the number of levels of messages nested in it. Linking does not change it, and
a linked file whose messages stay within the limit has a snapshot.
-/

namespace SchemaTree

/-! ### Heights -/

namespace Descriptor

mutual

/-- The number of levels of messages nested in a message. -/
def Message.height : Message → Nat
  | ⟨_, _, _, messages, _, _, _, _, _, _⟩ => Message.heightOfAll messages

/-- The number of levels of messages and those nested in them. -/
def Message.heightOfAll : List Message → Nat
  | [] => 0
  | m :: ms => max (Message.height m + 1) (Message.heightOfAll ms)

end

mutual

theorem height_bare : ∀ m : Message, m.bare.height = m.height
  | ⟨_, _, _, messages, _, _, _, _, _, _⟩ => heightOfAll_bare messages

theorem heightOfAll_bare : ∀ ms : List Message,
    Message.heightOfAll (Message.bareAll ms) = Message.heightOfAll ms
  | [] => rfl
  | m :: ms => by
    rw [Message.bareAll, Message.heightOfAll, Message.heightOfAll, height_bare m, heightOfAll_bare ms]

end

mutual

theorem height_le_depth : ∀ m : Message, m.height ≤ m.depth
  | ⟨_, _, _, messages, _, _, _, _, _, _⟩ =>
    Nat.le_trans (heightOfAll_le messages) (Nat.le_max_left _ _)

theorem heightOfAll_le : ∀ ms : List Message, Message.heightOfAll ms ≤ Message.nestedDepth ms
  | [] => Nat.le_refl 0
  | m :: ms => by
    have hfirst := height_le_depth m
    have hrest := heightOfAll_le ms
    rw [Message.heightOfAll, Message.nestedDepth]
    omega

end

theorem File.heightOfAll_le_depth (f : File) : Message.heightOfAll f.messages ≤ f.depth := by
  have hmessages := heightOfAll_le f.messages
  rw [Message.nestedDepth_eq] at hmessages
  exact Nat.le_trans hmessages (Nat.le_max_left _ _)

end Descriptor

/-! ### Snapshots -/

namespace Snapshot
open Descriptor
open Pool (Declaration)
open Schema (Dialect)

section
variable {ds : List Declaration} {file : String} {dialect : Dialect}

def FieldsShown (ds : List Declaration) (file : String) (dialect : Dialect)
    (tree : List (String × Message)) : Prop :=
  ∀ p ∈ tree, ∀ x ∈ p.2.fields, ∃ y, field ds file p.1 dialect x = .ok y

mutual

theorem message_ok : ∀ (scope : String) (level : Nat) (m : Message), level + m.height ≤ limit →
    FieldsShown ds file dialect (Message.tree scope m) →
      ∃ s, message ds file dialect scope level m = .ok s
  | scope, level, ⟨name, fields, _, messages, enums, _, _, _, _, _⟩, hlevel, h => by
    obtain ⟨hown, hnested⟩ := List.forall_mem_cons.mp h
    have hheight : level + Message.heightOfAll messages ≤ limit := hlevel
    have hordered : ∀ x ∈ orderedFields fields, ∃ y, field ds file (qualify scope name) dialect x = .ok y :=
      fun x hx => hown x ((orderedFields_perm fields).mem_iff.mp hx)
    obtain ⟨shown, hshown⟩ := mapM_ok hordered
    obtain ⟨inner, hinner⟩ := messageList_ok (qualify scope name) (level + 1) messages (by omega) hnested
    have hnot : ¬limit < level := by omega
    simp only [message, hnot, if_false, hshown, hinner]
    exact ⟨_, rfl⟩

theorem messageList_ok : ∀ (scope : String) (level : Nat) (ms : List Message),
    level + Message.heightOfAll ms ≤ limit + 1 → FieldsShown ds file dialect (Message.trees scope ms) →
      ∃ ss, messageList ds file dialect scope level ms = .ok ss
  | _, _, [], _, _ => ⟨[], rfl⟩
  | scope, level, m :: ms, hlevel, h => by
    obtain ⟨hfirst, hrest⟩ := List.forall_mem_append.mp h
    rw [Message.heightOfAll] at hlevel
    obtain ⟨s, hs⟩ := message_ok scope level m (by omega) hfirst
    obtain ⟨ss, hss⟩ := messageList_ok scope level ms (by omega) hrest
    simp only [messageList, hs, hss]
    exact ⟨_, rfl⟩

end

end

/-- A linked file has a snapshot if its messages are within the limit. -/
theorem linked_ok {pool : Pool} {new : List File} (h : ({} : Pool).link? new = some pool) {f : File}
    (hf : f ∈ pool.files) (hheight : Message.heightOfAll f.messages ≤ limit) :
    ∃ s, file pool.declarations f = .ok s := by
  have hshown : FieldsShown pool.declarations f.name (Pool.dialectOf f) f.messageTree := by
    intro p hp x hx
    exact linked_field_ok h hf hp hx
  obtain ⟨messages, hmessages⟩ := messageList_ok f.package 1 f.messages (by omega) hshown
  simp only [file, hmessages]
  exact ⟨_, rfl⟩

end Snapshot
end SchemaTree
