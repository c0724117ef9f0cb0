import SchemaTree.Descriptor.Basic

/-!
# How deeply declarations are embedded

On the wire every part of a declaration is a message inside that of the declaration. The depth of a
declaration is the number of levels of messages inside its own.
-/

namespace SchemaTree.Descriptor

/-! ### Lists of embedded messages -/

/-- The number of levels of embedded messages, given how many are inside each. -/
def levelsIn (depth : α → Nat) (xs : List α) : Nat := (xs.map fun x => depth x + 1).foldr max 0

theorem levelsIn_le {depth : α → Nat} {xs : List α} {n : Nat} :
    levelsIn depth xs ≤ n ↔ ∀ x ∈ xs, depth x + 1 ≤ n := by
  induction xs with
  | nil => simp [levelsIn]
  | cons x xs ih =>
    have hcons : levelsIn depth (x :: xs) = max (depth x + 1) (levelsIn depth xs) := rfl
    rw [hcons, Nat.max_le, ih, List.forall_mem_cons]

/-! ### Declarations -/

/-- The depth of a message that embeds no others. -/
def flat : α → Nat := fun _ => 0

def UninterpretedOption.depth (o : UninterpretedOption) : Nat := levelsIn flat o.name

def Options.depth (options : Options) : Nat :=
  levelsIn UninterpretedOption.depth options.uninterpreted

def optionsDepth (options : Option Options) : Nat := levelsIn Options.depth options.toList

def Field.depth (d : Field) : Nat := optionsDepth d.options

def Oneof.depth (d : Oneof) : Nat := optionsDepth d.options

def ExtensionRange.depth (d : ExtensionRange) : Nat := optionsDepth d.options

def EnumValue.depth (d : EnumValue) : Nat := optionsDepth d.options

def Enum.depth (d : Enum) : Nat :=
  max (levelsIn EnumValue.depth d.values) (max (optionsDepth d.options) (levelsIn flat d.reservedRanges))

def Method.depth (d : Method) : Nat := optionsDepth d.options

def Service.depth (d : Service) : Nat := max (levelsIn Method.depth d.methods) (optionsDepth d.options)

/-- The levels in a message besides those of the messages nested in it. -/
def Message.partsDepth (d : Message) : Nat :=
  max (levelsIn Field.depth d.fields) <| max (levelsIn Enum.depth d.enums) <|
    max (levelsIn ExtensionRange.depth d.extensionRanges) <| max (levelsIn Field.depth d.extensions) <|
      max (optionsDepth d.options) <| max (levelsIn Oneof.depth d.oneofs) <|
        levelsIn flat d.reservedRanges

mutual

def Message.depth : Message → Nat
  | m@⟨_, _, _, messages, _, _, _, _, _, _⟩ => max (Message.nestedDepth messages) m.partsDepth

def Message.nestedDepth : List Message → Nat
  | [] => 0
  | m :: ms => max (Message.depth m + 1) (Message.nestedDepth ms)

end

theorem Message.nestedDepth_eq (ms : List Message) :
    Message.nestedDepth ms = levelsIn Message.depth ms := by
  induction ms with
  | nil => rfl
  | cons m ms ih =>
    rw [Message.nestedDepth, ih]
    rfl

def File.depth (d : File) : Nat :=
  max (levelsIn Message.depth d.messages) <| max (levelsIn Enum.depth d.enums) <|
    max (levelsIn Service.depth d.services) <| max (levelsIn Field.depth d.extensions) <|
      optionsDepth d.options

/-- The levels of embedded messages in a set of files, of which a file is one. -/
def setDepth (files : List File) : Nat := levelsIn File.depth files

end SchemaTree.Descriptor
