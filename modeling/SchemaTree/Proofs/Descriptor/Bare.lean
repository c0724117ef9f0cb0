import SchemaTree.Proofs.Descriptor.Nested

/-!
# Declarations without references and options

Resolving replaces the references of a file and interpreting replaces its options. What neither of them
touches is the bare file: all names, numbers, labels, default texts and flags, in the order and the
nesting of their declaration.
-/

namespace SchemaTree.Descriptor

/-! ### Parts of messages, enums and services -/

def Field.bare (x : Field) : Field :=
  { x with typeCode := 0, typeName := "", extendee := none, options := none }

def Oneof.bare (o : Oneof) : Oneof := { o with options := none }

def ExtensionRange.bare (r : ExtensionRange) : ExtensionRange := { r with options := none }

def EnumValue.bare (v : EnumValue) : EnumValue := { v with options := none }

@[simp] theorem EnumValue.bare_number (v : EnumValue) : v.bare.number = v.number := rfl

@[simp] theorem EnumValue.bare_name (v : EnumValue) : v.bare.name = v.name := rfl

def Enum.bare (e : Enum) : Enum := { e with values := e.values.map .bare, options := none }

def Method.bare (m : Method) : Method := { m with input := "", output := "", options := none }

def Service.bare (s : Service) : Service := { s with methods := s.methods.map .bare, options := none }

/-- A message without the messages nested in it, and without references and options. -/
def Message.surface (m : Message) : Message :=
  { m with
    fields := m.fields.map .bare
    extensions := m.extensions.map .bare
    messages := []
    enums := m.enums.map .bare
    extensionRanges := m.extensionRanges.map .bare
    oneofs := m.oneofs.map .bare
    options := none }

theorem Field.same_of_bare {x y : Field} (h : x.bare = y.bare) :
    x.name = y.name ∧ x.number = y.number ∧ x.label = y.label ∧ x.defaultText = y.defaultText := by
  simp only [Field.bare, Field.mk.injEq] at h
  exact ⟨h.1, h.2.1, h.2.2.1, h.2.2.2.2.2.2.1⟩

theorem EnumValue.same_of_bare {v w : EnumValue} (h : v.bare = w.bare) :
    v.name = w.name ∧ v.number = w.number := by
  simp only [EnumValue.bare, EnumValue.mk.injEq] at h
  exact ⟨h.1, h.2.1⟩

theorem Enum.same_of_bare {e e' : Enum} (h : e.bare = e'.bare) :
    e.name = e'.name ∧ e.values.map EnumValue.bare = e'.values.map EnumValue.bare := by
  simp only [Enum.bare, Enum.mk.injEq] at h
  exact ⟨h.1, h.2.1⟩

/-! ### Messages and files -/

mutual

/-- A message without references and options, those of the messages nested in it included. -/
def Message.bare : Message → Message
  | m@⟨_, _, _, messages, _, _, _, _, _, _⟩ => { m.surface with messages := Message.bareAll messages }

def Message.bareAll : List Message → List Message
  | [] => []
  | m :: ms => Message.bare m :: Message.bareAll ms

end

theorem Message.bare_surface (m : Message) : m.bare.surface = m.surface := by
  obtain ⟨name, fields, extensions, messages, enums, ranges, oneofs, options, _, _⟩ := m
  simp only [Message.bare, Message.surface, Enum.bare, List.map_map, Function.comp_def]
  rfl

def File.bare (f : File) : File :=
  { f with
    messages := Message.bareAll f.messages
    enums := f.enums.map .bare
    services := f.services.map .bare
    extensions := f.extensions.map .bare
    options := none }

theorem File.same_of_bare {f g : File} (h : f.bare = g.bare) :
    f.name = g.name ∧ f.package = g.package ∧ f.imports = g.imports := by
  simp only [File.bare, File.mk.injEq] at h
  exact ⟨h.1, h.2.1, h.2.2.1⟩

/-! ### Changing messages in place -/

/-- Whether a step changes only references and options of a message. -/
def KeepsSurface (step : String → Message → Option Message) : Prop :=
  ∀ fullName m m', step fullName m = some m' → m'.surface = m.surface

mutual

theorem bare_traverse? {step : String → Message → Option Message} (hstep : KeepsSurface step) :
    ∀ (scope : String) (m m' : Message), Message.traverse? step scope m = some m' → m'.bare = m.bare
  | scope, ⟨name, _, _, messages, _, _, _, _, _, _⟩, m', h => by
    obtain ⟨c, hc, h⟩ := Option.bind_eq_some_iff.mp h
    obtain ⟨ms, hms, h⟩ := Option.bind_eq_some_iff.mp h
    cases Option.some.inj h
    have hsurface := hstep _ _ _ hc
    have hnested := bare_traverseAll? hstep (qualify scope name) messages ms hms
    show ({ Message.surface { c with messages := ms } with messages := Message.bareAll ms } :
      Message) = _
    rw [hnested]
    exact congrArg (fun s : Message => { s with messages := Message.bareAll messages }) hsurface

theorem bare_traverseAll? {step : String → Message → Option Message} (hstep : KeepsSurface step) :
    ∀ (scope : String) (ms ms' : List Message), Message.traverseAll? step scope ms = some ms' →
      Message.bareAll ms' = Message.bareAll ms
  | _, [], ms', h => by
    cases Option.some.inj h
    rfl
  | scope, m :: ms, ms', h => by
    obtain ⟨c, hc, h⟩ := Option.bind_eq_some_iff.mp h
    obtain ⟨rest, hrest, h⟩ := Option.bind_eq_some_iff.mp h
    cases Option.some.inj h
    rw [Message.bareAll, Message.bareAll, bare_traverse? hstep scope m c hc,
      bare_traverseAll? hstep scope ms rest hrest]

end

/-! ### All messages and enums of a bare file -/

mutual

theorem tree_bare : ∀ (scope : String) (m : Message),
    Message.tree scope m.bare = (Message.tree scope m).map fun p => (p.1, p.2.bare)
  | scope, ⟨name, _, _, messages, _, _, _, _, _, _⟩ => by
    have hnested := trees_bare (qualify scope name) messages
    show _ :: Message.trees (qualify scope name) (Message.bareAll messages) = _
    rw [hnested]
    rfl

theorem trees_bare : ∀ (scope : String) (ms : List Message),
    Message.trees scope (Message.bareAll ms) = (Message.trees scope ms).map fun p => (p.1, p.2.bare)
  | _, [] => rfl
  | scope, m :: ms => by
    rw [Message.bareAll, Message.trees, Message.trees, List.map_append, tree_bare scope m,
      trees_bare scope ms]

end

theorem File.bare_messageTree (f : File) :
    f.bare.messageTree = f.messageTree.map fun p => (p.1, p.2.bare) := trees_bare f.package f.messages

/-- Files that are the same but for references and options have the same messages but for these. -/
theorem forall₂_messageTree_of_bare {f g : File} (h : f.bare = g.bare) :
    List.Forall₂ (fun p q => q.1 = p.1 ∧ q.2.bare = p.2.bare) f.messageTree g.messageTree := by
  have htrees := congrArg File.messageTree h.symm
  rw [f.bare_messageTree, g.bare_messageTree] at htrees
  exact (forall₂_of_map_eq htrees).imp fun p q hpq => Prod.ext_iff.mp hpq

/-- The enums declared in a scope, with their full names. -/
def namedEnums (scope : String) (enums : List Enum) : List (String × Enum) :=
  enums.map fun e => (qualify scope e.name, e)

def File.enumTree (f : File) : List (String × Enum) :=
  f.messageTree.flatMap (fun p => namedEnums p.1 p.2.enums) ++ namedEnums f.package f.enums

theorem namedEnums_bare (scope : String) (enums : List Enum) :
    namedEnums scope (enums.map .bare) = (namedEnums scope enums).map fun p => (p.1, p.2.bare) := by
  simp only [namedEnums, List.map_map, Function.comp_def]
  rfl

theorem Message.bare_enums (m : Message) : m.bare.enums = m.enums.map .bare := by
  cases m
  rfl

theorem Message.bare_fields (m : Message) : m.bare.fields = m.fields.map .bare := by
  cases m
  rfl

/-- A field of a message has a counterpart in a message that is the same but for references and
options. -/
theorem exists_field_of_bare {m m' : Message} (h : m.bare = m'.bare) {x : Field} (hx : x ∈ m.fields) :
    ∃ x' ∈ m'.fields, x'.bare = x.bare := by
  have hfields := congrArg Message.fields h
  rw [m.bare_fields, m'.bare_fields] at hfields
  have hmem : x.bare ∈ m'.fields.map Field.bare := hfields ▸ List.mem_map_of_mem hx
  exact List.mem_map.mp hmem

theorem File.bare_enumTree (f : File) :
    f.bare.enumTree = f.enumTree.map fun p => (p.1, p.2.bare) := by
  simp only [File.enumTree, f.bare_messageTree, List.flatMap_map, List.map_append, List.map_flatMap,
    Message.bare_enums, namedEnums_bare]
  rw [← namedEnums_bare]
  rfl

theorem forall₂_enumTree_of_bare {f g : File} (h : f.bare = g.bare) :
    List.Forall₂ (fun p q => q.1 = p.1 ∧ q.2.bare = p.2.bare) f.enumTree g.enumTree := by
  have htrees := congrArg File.enumTree h.symm
  rw [f.bare_enumTree, g.bare_enumTree] at htrees
  exact (forall₂_of_map_eq htrees).imp fun p q hpq => Prod.ext_iff.mp hpq

/-- Looking up a value by its name or number comes to the same in enums that are the same but for
options. -/
theorem find?_value_of_bare {e e' : Enum} (h : e.bare = e'.bare) {p : EnumValue → Bool}
    (hp : ∀ v, p v.bare = p v) {v : EnumValue} (hv : e.values.find? p = some v) :
    ∃ v', e'.values.find? p = some v' ∧ v'.bare = v.bare := by
  have hvalues : e'.values.map EnumValue.bare = e.values.map EnumValue.bare :=
    (Enum.same_of_bare h).2.symm
  have hcomp : p ∘ EnumValue.bare = p := funext hp
  have hfind := congrArg (List.find? p) hvalues
  rw [List.find?_map, List.find?_map, hcomp, hv] at hfind
  exact Option.map_eq_some_iff.mp hfind

end SchemaTree.Descriptor
