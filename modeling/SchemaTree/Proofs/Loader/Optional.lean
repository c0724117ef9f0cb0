import Mathlib.Data.List.Perm.Basic
import SchemaTree.Proofs.Loader.Fields
import SchemaTree.Proofs.Source.Keyword

/-!
# Which fields are shown as optional

A field from a source is shown as optional if the word `optional` stands before it. There is one exception,
the fields of the messages that proto2 makes up for the entries of a map: nobody has declared them, with the
word or without, and yet they are shown as optional.
-/

namespace SchemaTree
open Descriptor (Message)

/-! ### Linked fields -/

theorem Descriptor.forall₂_fields_of_bare {m d : Message} (h : m.bare = d.bare) :
    List.Forall₂ (fun x y => y.bare = x.bare) m.fields d.fields := by
  have hfields := congrArg Message.fields h.symm
  rw [d.bare_fields, m.bare_fields] at hfields
  exact forall₂_of_map_eq hfields

namespace Snapshot

/-- What a field counts as does not depend on its type and its options. -/
theorem isOptional_bare (dialect : Schema.Dialect) (x : Descriptor.Field) :
    isOptional dialect x.bare = isOptional dialect x := rfl

theorem label_of_isPacked {dialect : Schema.Dialect} {x : Descriptor.Field}
    (h : isPacked dialect x = true) : x.label = .repeated := by
  simp only [isPacked, Options.Slot.isPacked, Options.Slot.isRepeated, Bool.and_eq_true,
    decide_eq_true_eq] at h
  exact h.1.1

end Snapshot

namespace Loader

/-- A declared field, noted if it was declared with the keyword, and what is stored of it. -/
structure ShownFrom (dialect : Schema.Dialect) (declared : Message) (z : Descriptor.Field)
    (y : Schema.Field) : Prop where
  name : y.name = z.name
  number : (y.number.toNat : Int) = z.number
  isOptional : y.isOptional = true ↔
    z.isProto3Optional = true ∨ dialect = .proto2 ∧ Source.IsEntry declared
  marker : y.marker = .optional ↔ y.isOptional = true

theorem marker_eq_optional {dialect : Schema.Dialect} {x : Descriptor.Field} {y : Schema.Field}
    (hoptional : y.isOptional = Snapshot.isOptional dialect x)
    (hpacked : y.isPacked = Snapshot.isPacked dialect x)
    (hlabel : Snapshot.isOptional dialect x = true → x.label = .optional) :
    y.marker = .optional ↔ y.isOptional = true := by
  unfold Schema.Field.marker
  split
  · rename_i h
    -- A packed field is repeated, so it does not count as optional.
    have hrepeated := Snapshot.label_of_isPacked (hpacked.symm.trans h)
    constructor
    · intro hmarker
      cases hmarker
    · intro hcounts
      have hsingle := hlabel (hoptional.symm.trans hcounts)
      rw [hrepeated] at hsingle
      cases hsingle
  · split <;> simp_all

theorem shownFrom_field {ds : List Pool.Declaration} {file scope : String} {dialect : Schema.Dialect}
    {declared : Message} {w x z : Descriptor.Field} {y : Schema.Field}
    (hsnapshot : Snapshot.field ds file scope dialect w = .ok y)
    (hnumber : Pool.isFieldNumber w.number = true) (hbare : x.bare = w.bare)
    (hnoted : Source.Optionality dialect declared x z) : ShownFrom dialect declared z y := by
  obtain ⟨hname, hynumber⟩ := Snapshot.field_same hsnapshot hnumber
  obtain ⟨hxname, hxnumber, hxlabel, -⟩ := Descriptor.Field.same_of_bare hbare
  have hcounts : Snapshot.isOptional dialect x = Snapshot.isOptional dialect w := by
    rw [← Snapshot.isOptional_bare, hbare, Snapshot.isOptional_bare]
  obtain ⟨_, _, hsnapshot⟩ := bind_eq_ok hsnapshot
  cases hsnapshot
  refine ⟨?_, ?_, ?_, ?_⟩
  · rw [hnoted.name, hxname]
  · rw [hnoted.number, hxnumber, hynumber]
  · rw [← hnoted.counts, hcounts]
  · refine marker_eq_optional (x := w) rfl rfl fun h => ?_
    rw [← hxlabel]
    exact hnoted.label (hcounts.trans h)

/-- The fields of a linked message and of its snapshot, by the notes of the declared fields. -/
theorem shownFrom_message {ds : List Pool.Declaration} {file : String} {dialect : Schema.Dialect}
    {p q r : String × Message} {m : Schema.Message} (hshown : Snapshot.Shown ds file dialect p m)
    (hnumbers : ∀ w ∈ p.2.fields, Pool.isFieldNumber w.number = true) (hbare : q.2.bare = p.2.bare)
    (hnoted : Source.TreeNotes dialect q r) : ∃ zs : List Descriptor.Field, zs.Perm r.2.fields ∧
      List.Forall₂ (ShownFrom dialect r.2) zs m.fields := by
  have hperm := Snapshot.orderedFields_perm p.2.fields
  have hdeclared := forall₂_comp (Descriptor.forall₂_fields_of_bare hbare.symm) hnoted.2
  -- The notes are put into the order in which the fields are shown.
  obtain ⟨zs, hzs, hsame⟩ := List.perm_comp_forall₂ hperm hdeclared
  refine ⟨zs, hsame, (forall₂_meet hzs hshown.fields).imp ?_⟩
  rintro z y ⟨w, hw, ⟨x, hxw, hxz⟩, hwy⟩
  exact shownFrom_field hwy (hnumbers w (hperm.mem_iff.mp hw)) hxw hxz

/-- Each field that is stored of a source is shown as optional if the source declares it with the keyword,
or if it belongs to the entries of a map in proto2. No member of a choice can be declared so. -/
theorem fields_optional (config : Config) (disk : Disk) (path name : String) (file : Schema.File)
    (h : (name, file) ∈ (parseFile config disk path).stores) :
    (∃ opened k, openSource config disk name = .ok opened ∧
      Source.readNoted? name opened.source = some k ∧
      List.Forall₂ (fun p m => m.fullName = p.1 ∧ ∃ zs : List Descriptor.Field, zs.Perm p.2.fields ∧
        List.Forall₂ (ShownFrom file.dialect p.2) zs m.fields) k.messageTree file.messageTree) ∧
    ∀ dialect body ts, ts.head? = some (.word "optional") →
      Source.oneofField dialect body ts = none := by
  refine ⟨?_, fun _ _ _ => Source.oneofField_keyword⟩
  obtain ⟨pool, f, d, hfrom⟩ :
      ∃ pool f d, StoredFrom (.file config disk path) pool name f d file := Call.stored_from h
  obtain ⟨new, hlink⟩ := hfrom.linking
  have hdeclared : declared? config disk name = some d := hfrom.declares
  unfold declared? at hdeclared
  split at hdeclared
  · rename_i opened hopened
    obtain ⟨k, hk, hnoted⟩ := Source.messageTree_noted hdeclared
    refine ⟨opened, k, hopened, hk, ?_⟩
    have hdialect : file.dialect = Pool.dialectOf f := by
      obtain ⟨_, _, hfile⟩ := bind_eq_ok hfrom.snapshot
      cases hfile
      rfl
    rw [← Pool.dialectOf_of_bare hfrom.bare, ← hdialect] at hnoted
    have hshown := (Snapshot.file_shown hfrom.snapshot).2
    rw [← hdialect] at hshown
    have hbare := Descriptor.forall₂_messageTree_of_bare hfrom.bare
    refine (forall₂_meet (forall₂_comp hbare hnoted) hshown).imp ?_
    rintro r m ⟨p, hp, ⟨q, ⟨hpq, hsame⟩, hqr⟩, hpm⟩
    refine ⟨by rw [hpm.fullName, hqr.1, hpq], ?_⟩
    exact shownFrom_message hpm (Pool.numbers_of_message hlink hfrom.mem hp).2 hsame hqr
  · cases hdeclared

/-- A proto2 source with a label, a choice, a group and a map. -/
def labelled : Config :=
  { contents := [("a.proto", "message M \x7b oneof o \x7b bool a = 1; \x7d " ++
    "optional group G = 2 \x7b \x7d map<bool, bool> m = 3; \x7d")] }

/-- The file that is stored of `labelled`. -/
def labelledFile : Schema.File :=
  ⟨"a.proto", .proto2, "", [],
    [⟨"M", "M",
        [⟨"a", 1, .bool, false, false, .bool false, none⟩, ⟨"g", 2, .unknown, true, false, .absent, none⟩,
          ⟨"m", 3, .message, false, false, .absent, some "M.MEntry"⟩],
        [⟨"G", "M.G", [], [], []⟩,
          ⟨"MEntry", "M.MEntry",
            [⟨"key", 1, .bool, true, false, .bool false, none⟩,
              ⟨"value", 2, .bool, true, false, .bool false, none⟩], [], []⟩], []⟩], [], []⟩

theorem labelled_stored : ("a.proto", labelledFile) ∈ (parseFile labelled {} "a.proto").stores := by
  decide +kernel

theorem fields_optional_labelled : ("a.proto", labelledFile) ∈ (parseFile labelled {} "a.proto").stores ∧
    ∃ opened k, openSource labelled {} "a.proto" = .ok opened ∧
      Source.readNoted? "a.proto" opened.source = some k ∧
      List.Forall₂ (fun p m => m.fullName = p.1 ∧ ∃ zs : List Descriptor.Field, zs.Perm p.2.fields ∧
        List.Forall₂ (ShownFrom labelledFile.dialect p.2) zs m.fields) k.messageTree labelledFile.messageTree :=
  ⟨labelled_stored, (fields_optional labelled {} "a.proto" "a.proto" labelledFile labelled_stored).1⟩

/-- A proto2 source of a map. -/
def mapped : Config := { contents := [("a.proto", "message M \x7b map<int32, string> m = 1; \x7d")] }

/-- The file that is stored of `mapped`. -/
def mappedFile : Schema.File :=
  ⟨"a.proto", .proto2, "", [],
    [⟨"M", "M", [⟨"m", 1, .message, false, false, .absent, some "M.MEntry"⟩],
      [⟨"MEntry", "M.MEntry",
        [⟨"key", 1, .int32, true, false, .int32 0, none⟩, ⟨"value", 2, .string, true, false, .string "", none⟩],
        [], []⟩], []⟩], [], []⟩

theorem mapped_stored : ("a.proto", mappedFile) ∈ (parseFile mapped {} "a.proto").stores := by
  decide +kernel

/-- A field can be shown as optional that is not declared with the keyword. -/
theorem keyword_unwritten :
    ¬∀ (config : Config) (disk : Disk) (path name : String) (file : Schema.File) (opened : Opened)
        (k : Descriptor.File) (p : String × Message) (m : Schema.Message) (z : Descriptor.Field)
        (y : Schema.Field),
      (name, file) ∈ (parseFile config disk path).stores → openSource config disk name = .ok opened →
      Source.readNoted? name opened.source = some k →
      p ∈ k.messageTree → m ∈ file.messageTree → m.fullName = p.1 →
      z ∈ p.2.fields → y ∈ m.fields → y.name = z.name →
        (y.isOptional = true ↔ z.isProto3Optional = true) := by
  intro h
  obtain ⟨source, hsource⟩ : ∃ source, mapped.contents = [("a.proto", source)] := ⟨_, rfl⟩
  have hopened : openSource mapped {} "a.proto" = .ok ⟨source, none⟩ := by
    rw [openSource, hsource]
    rfl
  have hnoted : (Source.readNoted? "a.proto" source).any (fun k => k.messageTree.any fun p =>
      p.1 = "M.MEntry" && p.2.fields.any fun z =>
        z.name = "key" && !z.isProto3Optional) = true := by
    cases hsource
    decide +kernel
  have hshown : (mappedFile.messageTree.any fun m => m.fullName = "M.MEntry" &&
      m.fields.any fun y => y.name = "key" && y.isOptional) = true := by
    decide
  simp only [Option.any_eq_true, List.any_eq_true, Bool.and_eq_true, decide_eq_true_eq,
    Bool.not_eq_true'] at hnoted hshown
  obtain ⟨k, hk, p, hp, hpname, z, hz, hzname, hwritten⟩ := hnoted
  obtain ⟨m, hm, hmname, y, hy, hyname, hoptional⟩ := hshown
  have hiff := h mapped {} "a.proto" "a.proto" mappedFile _ k p m z y mapped_stored hopened hk hp hm
    (hmname.trans hpname.symm) hz hy (hyname.trans hzname.symm)
  rw [hiff.mp hoptional] at hwritten
  cases hwritten

end Loader
end SchemaTree
