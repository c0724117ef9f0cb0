import SchemaTree.Descriptor.Nested
import SchemaTree.Descriptor.Reader
import SchemaTree.Proofs.Wire.Bounds

/-!
# Declarations that can be written

Numbers of a declaration can be written if they fit into the width they have on the wire, and its known
options if they are in the form in which a reader keeps them.
-/

namespace SchemaTree.Descriptor
open Wire (IsInt32 IsInt64)

/-! ### Options -/

structure UninterpretedOption.Writable (o : UninterpretedOption) : Prop where
  positiveInt : ∀ n ∈ o.positiveInt, n < Width.size 64
  negativeInt : ∀ n ∈ o.negativeInt, IsInt64 n
  double : ∀ n ∈ o.double, n < Width.size 64

/-- A known option of a declaration in the form in which it is kept. -/
def IsKnown (target : Target) (option : Nat × Wire.Value) : Prop :=
  ∃ type, target.known.lookup option.1 = some type ∧ type.value? option.2 = some option.2

structure Options.Writable (target : Target) (options : Options) : Prop where
  distinct : (options.known.map (·.1)).Nodup
  known : ∀ option ∈ options.known, IsKnown target option
  uninterpreted : ∀ o ∈ options.uninterpreted, o.Writable

/-- Whether the options of a declaration, if it has any, can be written. -/
def OptionsWritable (target : Target) (options : Option Options) : Prop :=
  ∀ o ∈ options, o.Writable target

/-! ### Numbers -/

/-- Fields whose numbers fit, the position of their choice apart. -/
structure Field.Numbered (d : Field) : Prop where
  number : IsInt32 d.number
  typeCode : IsInt32 d.typeCode

/-- Extensions whose numbers fit; none of them is in a choice. -/
structure Field.ExtensionNumbered (d : Field) : Prop extends Field.Numbered d where
  oneofIndex : d.oneofIndex = none

structure Range.Numbered (d : Range) : Prop where
  first : IsInt32 d.first
  stop : IsInt32 d.stop

structure Enum.Numbered (d : Enum) : Prop where
  values : ∀ v ∈ d.values, IsInt32 v.number
  reservedRanges : ∀ r ∈ d.reservedRanges, r.Numbered

/-- Messages whose numbers fit, those nested in them apart. -/
structure Message.Numbered (d : Message) : Prop where
  fields : ∀ x ∈ d.fields, x.Numbered
  extensions : ∀ x ∈ d.extensions, x.ExtensionNumbered
  enums : ∀ e ∈ d.enums, e.Numbered
  extensionRanges : ∀ r ∈ d.extensionRanges, r.toRange.Numbered
  reservedRanges : ∀ r ∈ d.reservedRanges, r.Numbered

structure File.Numbered (d : File) : Prop where
  messages : ∀ p ∈ d.messageTree, p.2.Numbered
  enums : ∀ e ∈ d.enums, e.Numbered
  extensions : ∀ x ∈ d.extensions, x.ExtensionNumbered

/-! ### Numbers and options -/

structure Field.Writable (d : Field) : Prop extends Field.Numbered d where
  options : OptionsWritable .field d.options

structure Field.ExtensionWritable (d : Field) : Prop extends Field.ExtensionNumbered d where
  options : OptionsWritable .field d.options

structure ExtensionRange.Writable (d : ExtensionRange) : Prop where
  range : d.toRange.Numbered
  options : OptionsWritable .extensionRange d.options

structure EnumValue.Writable (d : EnumValue) : Prop where
  number : IsInt32 d.number
  options : OptionsWritable .enumValue d.options

structure Enum.Writable (d : Enum) : Prop where
  values : ∀ v ∈ d.values, v.Writable
  options : OptionsWritable .enum d.options
  reservedRanges : ∀ r ∈ d.reservedRanges, r.Numbered

/-- How many things positions of 32 bits tell apart. -/
def placeLimit : Nat := 2147483648

/-- Whether the members of choices name choices of their message. -/
def HasChoices (d : Message) : Prop :=
  ∀ x ∈ d.fields, ∀ i ∈ x.oneofIndex, 0 ≤ i ∧ i < d.oneofs.length

/-- Messages that can be written, those nested in them apart. -/
structure Message.Writable (d : Message) : Prop where
  fields : ∀ x ∈ d.fields, x.Writable
  choices : HasChoices d
  extensions : ∀ x ∈ d.extensions, x.ExtensionWritable
  enums : ∀ e ∈ d.enums, e.Writable
  extensionRanges : ∀ r ∈ d.extensionRanges, r.Writable
  oneofs : ∀ o ∈ d.oneofs, OptionsWritable .oneof o.options
  options : OptionsWritable .message d.options
  reservedRanges : ∀ r ∈ d.reservedRanges, r.Numbered

structure Service.Writable (d : Service) : Prop where
  methods : ∀ m ∈ d.methods, OptionsWritable .method m.options
  options : OptionsWritable .service d.options

def ArePlaces (d : File) (positions : List Int) : Prop :=
  ∀ i ∈ positions, 0 ≤ i ∧ i < d.imports.length

structure File.Writable (d : File) : Prop where
  messages : ∀ p ∈ d.messageTree, p.2.Writable
  enums : ∀ e ∈ d.enums, e.Writable
  services : ∀ s ∈ d.services, s.Writable
  extensions : ∀ x ∈ d.extensions, x.ExtensionWritable
  options : OptionsWritable .file d.options
  publicImports : ArePlaces d d.publicImports
  weakImports : ArePlaces d d.weakImports

end SchemaTree.Descriptor
