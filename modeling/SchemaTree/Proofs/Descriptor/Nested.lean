import SchemaTree.Descriptor.Nested
import SchemaTree.Proofs.Sequence

/-!
# Changing messages in place

`Message.traverse?` changes every message of a tree, and the tree keeps its shape: read in the order
of `Message.tree`, the messages before and after correspond one by one, each under its full name.
-/

namespace SchemaTree.Descriptor

/-! ### Messages changed one by one -/

/-- A message under its full name before and after a step: the name is kept, and the message is what
the step makes of it but for the messages nested in it. -/
def Changed (step : String → Message → Option Message) (before after : String × Message) : Prop :=
  after.1 = before.1 ∧
    ∃ m, step before.1 before.2 = some m ∧ after.2 = { m with messages := after.2.messages }

/-- Whether a step keeps the names of messages. -/
def KeepsNames (step : String → Message → Option Message) : Prop :=
  ∀ fullName m m', step fullName m = some m' → m'.name = m.name

mutual

theorem tree_traverse? {step : String → Message → Option Message} (hname : KeepsNames step) :
    ∀ (scope : String) (m m' : Message), Message.traverse? step scope m = some m' →
      List.Forall₂ (Changed step) (Message.tree scope m) (Message.tree scope m')
  | scope, ⟨name, _, _, messages, _, _, _, _, _, _⟩, m', h => by
    obtain ⟨c, hc, h⟩ := Option.bind_eq_some_iff.mp h
    obtain ⟨ms, hms, h⟩ := Option.bind_eq_some_iff.mp h
    cases Option.some.inj h
    have hscope : qualify scope c.name = qualify scope name := by rw [hname _ _ _ hc]
    have hrest := trees_traverseAll? hname (qualify scope name) messages ms hms
    show List.Forall₂ _ _ ((qualify scope c.name, { c with messages := ms }) ::
      Message.trees (qualify scope c.name) ms)
    rw [hscope]
    exact .cons ⟨rfl, c, hc, rfl⟩ hrest

theorem trees_traverseAll? {step : String → Message → Option Message} (hname : KeepsNames step) :
    ∀ (scope : String) (ms ms' : List Message), Message.traverseAll? step scope ms = some ms' →
      List.Forall₂ (Changed step) (Message.trees scope ms) (Message.trees scope ms')
  | _, [], ms', h => by
    cases Option.some.inj h
    exact .nil
  | scope, m :: ms, ms', h => by
    obtain ⟨c, hc, h⟩ := Option.bind_eq_some_iff.mp h
    obtain ⟨rest, hrest, h⟩ := Option.bind_eq_some_iff.mp h
    cases Option.some.inj h
    exact List.rel_append (tree_traverse? hname scope m c hc)
      (trees_traverseAll? hname scope ms rest hrest)

end

/-! ### Fields of all messages -/

/-- The names and numbers of the fields of a message, in the order of their declaration. -/
def Message.layout (m : Message) : List (String × Int) := m.fields.map fun x => (x.name, x.number)

/-- The full names of all messages of a file, each with the names and numbers of its fields. -/
def File.layout (file : File) : List (String × List (String × Int)) :=
  file.messageTree.map fun p => (p.1, p.2.layout)

theorem layout_eq_of_changed {step : String → Message → Option Message} {f g : File}
    (h : List.Forall₂ (Changed step) f.messageTree g.messageTree)
    (hstep : ∀ fullName m m', step fullName m = some m' → m'.layout = m.layout) :
    g.layout = f.layout := by
  refine map_eq_of_forall₂ h fun p q hpq => ?_
  obtain ⟨hname, m, hm, hq⟩ := hpq
  have hlayout : q.2.layout = p.2.layout := by
    rw [hq]
    exact hstep p.1 p.2 m hm
  rw [hname, hlayout]

end SchemaTree.Descriptor
