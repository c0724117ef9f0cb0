import SchemaTree.Proofs.Loader.Fields

/-!
# Stored fields are well kinded

Whatever is loaded, the default of a stored field is a value of its kind, and unless a single value was
declared, it is the default of a new field of that kind. Fields of enums and messages name their type, and no others do. Groups have
a kind of their own, with neither a type nor a default.
-/

namespace SchemaTree.Loader
open Descriptor (groupCode)

/-- A stored field with the name and the number of a compiled one, and with what belongs to its kind. Its
kind is unknown if the compiled field is a group, and does not name an enum. -/
structure KindedFrom (x : Descriptor.Field) (y : Schema.Field) : Prop where
  name : y.name = x.name
  number : (y.number.toNat : Int) = x.number
  wellKinded : Snapshot.WellKinded x y
  group : y.kind = .unknown ↔ x.typeCode = groupCode ∧ y.kind ≠ .enum

theorem FieldFrom.kinded {dialect : Schema.Dialect} {x linked : Descriptor.Field} {y : Schema.Field}
    (h : FieldFrom dialect x linked y) : KindedFrom x y := by
  obtain ⟨ds, file, scope, htyped, hsnapshot⟩ := h.snapshot
  obtain ⟨_, _, hresolves⟩ := h.resolves
  obtain ⟨-, -, hlabel, htext⟩ := Pool.resolveType?_same hresolves
  obtain ⟨hname, hnumber⟩ := h.same
  have hkinded := (Snapshot.field_wellKinded htyped hsnapshot).of_same hlabel htext
  have hkind : y.kind = Schema.Kind.ofCode linked.typeCode := by
    obtain ⟨_, _, hy⟩ := bind_eq_ok hsnapshot
    cases hy
    exact Snapshot.kind_eq_ofCode linked
  refine ⟨hname, hnumber, hkinded, ?_⟩
  rw [hkind, Snapshot.unknown_iff_group htyped, Pool.resolveType?_group hresolves, ne_eq, ne_eq,
    Schema.Kind.ofCode_eq_enum]

/-- Every field of a stored file comes from a compiled one, of the same label and default as it was
declared with, and is well kinded. -/
theorem fields_wellKinded (call : Call) (name : String) (file : Schema.File)
    (h : (name, file) ∈ call.load.stores) : ∃ d, call.declared? name = some d ∧
      ∃ c ∈ call.compiled, c.name = name ∧ Descriptor.FieldsMatch Pool.SameField d c ∧
        List.Forall₂ (fun p m => m.fullName = p.1 ∧ ∀ y ∈ m.fields, ∃ x ∈ p.2.fields, KindedFrom x y)
          c.messageTree file.messageTree := by
  obtain ⟨d, hd, c, hc, hname, hcompiles, hfields⟩ := call.stored_fields h
  refine ⟨d, hd, c, hc, hname, hcompiles.fields.imp fun _ _ h => h.same, shown_imp ?_ hfields⟩
  rintro x y ⟨linked, hlinked⟩
  exact hlinked.kinded

/-- A source with a declared default, a repeated field of an enum, a group and fields of numbers and texts
without a default. -/
def mixed : Call :=
  .file { contents := [("a.proto", "message M \x7b
    enum E \x7b A = 0; B = 1; \x7d
    optional sint32 i = 1 [default = -7];
    repeated E e = 2;
    optional group G = 3 \x7b \x7d
    repeated float f = 4; optional fixed64 n = 5; required string s = 6; \x7d")] } {} "a.proto"

/-- The file that `mixed` stores. -/
def mixedFile : Schema.File :=
  ⟨"a.proto", .proto2, "", [],
    [⟨"M", "M",
      [⟨"i", 1, .sint32, true, false, .int32 (-7), none⟩,
        ⟨"e", 2, .enum, false, false, .enum "A" 0, some "M.E"⟩,
        ⟨"g", 3, .unknown, true, false, .absent, none⟩,
        ⟨"f", 4, .float, false, false, .float 0, none⟩,
        ⟨"n", 5, .fixed64, true, false, .uint64 0, none⟩,
        ⟨"s", 6, .string, false, false, .string "", none⟩],
      [⟨"G", "M.G", [], [], []⟩], [⟨"E", [⟨"A", 0⟩, ⟨"B", 1⟩]⟩]⟩], [], []⟩

theorem fields_wellKinded_mixed : ("a.proto", mixedFile) ∈ mixed.load.stores ∧
    ∃ d, mixed.declared? "a.proto" = some d ∧
      ∃ c ∈ mixed.compiled, c.name = "a.proto" ∧ Descriptor.FieldsMatch Pool.SameField d c ∧
        List.Forall₂ (fun p m => m.fullName = p.1 ∧ ∀ y ∈ m.fields, ∃ x ∈ p.2.fields, KindedFrom x y)
          c.messageTree mixedFile.messageTree := by
  have hstored : ("a.proto", mixedFile) ∈ mixed.load.stores := by decide +kernel
  exact ⟨hstored, fields_wellKinded mixed "a.proto" mixedFile hstored⟩

end SchemaTree.Loader
