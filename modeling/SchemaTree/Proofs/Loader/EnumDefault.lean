import SchemaTree.Proofs.Loader.Origin
import SchemaTree.Proofs.Pool.EnumSearch
import SchemaTree.Proofs.Snapshot.Kinds

/-!
# What is shown of an enum default

The default of a field that holds an enum is declared as the name of a value, is kept as the number of
that value, and is shown as the value that is found for the number. That is the first value declared
with the number, which need not be the one that the default names.
-/

namespace SchemaTree

/-! ### Enum defaults -/

namespace Pool
open Descriptor

/-- A valid default of a field with the code of enums names a value of its enum. -/
theorem named_of_hasValidDefault {ds : List Declaration} {x : Field} {text : String}
    (hvalid : hasValidDefault ds x = true) (htext : x.defaultText = some text)
    (hcode : x.typeCode = enumCode) :
    ∃ e v, enum? ds (referent x.typeName) = some e ∧ e.values.find? (·.name = text) = some v := by
  simp only [hasValidDefault, htext, declaredValue?, if_pos hcode, Option.isSome_map,
    Option.isSome_bind] at hvalid
  cases he : enum? ds (referent x.typeName) with
  | none =>
    rw [he] at hvalid
    cases hvalid
  | some e =>
    rw [he] at hvalid
    obtain ⟨v, hv⟩ := Option.isSome_iff_exists.mp ((Option.isSome_map ..).symm.trans hvalid)
    exact ⟨e, v, rfl, hv⟩

theorem numberedValue?_first (e : Enum) (number : Int) :
    numberedValue? e number = e.values.find? (·.number = number) := valueOfNumber?_ordered e.values number

end Pool

namespace Snapshot
open Descriptor
open Pool (Declaration)

/-- The value of an enum that the default of a field comes from: the one that the declared default of a
single value names, or else the first one. -/
inductive Starts (e : Enum) (x : Field) : EnumValue → Prop
  | named {text : String} {v : EnumValue} : x.label ≠ .repeated → x.defaultText = some text →
      e.values.find? (·.name = text) = some v → Starts e x v
  | first {v : EnumValue} : x.label = .repeated ∨ x.defaultText = none → e.values.head? = some v →
      Starts e x v

theorem Starts.mem {e : Enum} {x : Field} {v : EnumValue} (h : Starts e x v) : v ∈ e.values := by
  cases h with
  | named _ _ hv => exact List.mem_of_find?_eq_some hv
  | first _ hv => exact List.mem_of_mem_head? hv

theorem Starts.of_bare {e e' : Enum} {x : Field} {v : EnumValue} (h : Starts e x v)
    (hbare : e.bare = e'.bare) : ∃ v', Starts e' x v' ∧ v'.bare = v.bare := by
  cases h with
  | named hlabel htext hv =>
    obtain ⟨v', hv', hvv⟩ := find?_value_of_bare hbare (fun _ => rfl) hv
    exact ⟨v', .named hlabel htext hv', hvv⟩
  | first hdefault hv =>
    have hhead := congrArg List.head? (Enum.same_of_bare hbare).2
    rw [List.head?_map, List.head?_map, hv] at hhead
    obtain ⟨v', hv', hvv⟩ := Option.map_eq_some_iff.mp hhead.symm
    exact ⟨v', .first hdefault hv', hvv⟩

/-- The value of a field of an enum whose declared default is valid is the number of the value that the
field starts from. -/
theorem exists_starts {ds : List Declaration} {x : Field} {e : Enum}
    (he : Pool.enum? ds (referent x.typeName) = some e) (hne : e.values ≠ [])
    (hcode : x.typeCode = enumCode) (hvalid : Pool.hasValidDefault ds x = true) :
    ∃ v, Starts e x v ∧ value ds x = .enum v.number := by
  have hfirst : e.values.head? = some (e.values.head hne) := List.head?_eq_some_head hne
  have himplied : Pool.impliedValue ds x = .enum (e.values.head hne).number := by
    simp [Pool.impliedValue, hcode, he, hfirst]
  unfold value
  split
  · rename_i hlabel
    exact ⟨_, .first (.inl hlabel) hfirst, himplied⟩
  · rename_i hlabel
    unfold Pool.defaultValue
    cases htext : x.defaultText with
    | none => exact ⟨_, .first (.inr htext) hfirst, himplied⟩
    | some text =>
      obtain ⟨e', v, he', hv⟩ := Pool.named_of_hasValidDefault hvalid htext hcode
      obtain rfl := Option.some.inj (he.symm.trans he')
      refine ⟨v, .named hlabel htext hv, ?_⟩
      simp [Pool.declaredValue?, hcode, he, Pool.namedNumber?, hv]

/-- An enum default is the number of the value that the field starts from, with the name of the first
value that has this number. -/
theorem default_starts {ds : List Declaration} {file fullName : String} {x : Field} {e : Enum}
    {value : Schema.DefaultValue} (he : Pool.enum? ds (referent x.typeName) = some e)
    (hne : e.values ≠ []) (hcode : x.typeCode = enumCode) (hvalid : Pool.hasValidDefault ds x = true)
    (h : default ds file fullName x = .ok value) :
    ∃ v w, Starts e x v ∧ e.values.find? (·.number = v.number) = some w ∧
      value = .enum w.name (.ofInt v.number) := by
  obtain ⟨v, hstarts, hv⟩ := exists_starts he hne hcode hvalid
  simp only [default, hv, enumDefault, he, Pool.numberedValue?_first] at h
  cases hw : e.values.find? (·.number = v.number) with
  | none =>
    rw [hw] at h
    cases h
  | some w =>
    rw [hw] at h
    cases h
    exact ⟨v, w, hstarts, hw, rfl⟩

end Snapshot

/-! ### Loaded enum defaults -/

namespace Loader
open Descriptor (EnumValue)

/-- Whether an enum is declared under a full name in a file that a call can read. -/
def Call.Declares (call : Call) (fullName : String) (e : Descriptor.Enum) : Prop :=
  ∃ name d, call.declared? name = some d ∧ (fullName, e) ∈ d.enumTree

/-- What a field of an enum shows for a declared default: of the values that have the number of the
named one, the value that is declared first. -/
structure ShowsFirst (call : Call) (y : Schema.Field) (text : String) (e : Descriptor.Enum)
    (named first : EnumValue) : Prop where
  declares : ∃ fullName, y.typeName = some fullName ∧ call.Declares fullName e
  named_eq : e.values.find? (·.name = text) = some named
  first_eq : e.values.find? (·.number = named.number) = some first
  value : y.defaultValue = .enum first.name (.ofInt named.number)
  clause : y.defaultClause? = some first.name

/-- The enum defaults of a declared message, given by its full name, and of the message that is kept
for it. -/
def DefaultsByNumber (call : Call) (p : String × Descriptor.Message) (m : Schema.Message) : Prop :=
  m.fullName = p.1 ∧ ∀ x ∈ p.2.fields, ∃ y ∈ m.fields, y.name = x.name ∧
    (y.number.toNat : Int) = x.number ∧
    ∀ text, x.label ≠ .repeated → x.defaultText = some text → y.kind = .enum →
      ∃ e named first, ShowsFirst call y text e named first

/-- What the default of a linked field comes from: a value of an enum that is declared in one of the linked
files. -/
structure StartsFrom (call : Call) (pool : Pool) (x : Descriptor.Field) (y : Schema.Field)
    (home : String) (e : Descriptor.Enum) (v w : EnumValue) : Prop where
  linked : home ∈ pool.files.map (·.name)
  declares : ∃ d, call.declared? home = some d ∧ (Descriptor.referent x.typeName, e) ∈ d.enumTree
  typeName : y.typeName = some (Descriptor.referent x.typeName)
  starts : Snapshot.Starts e x v
  first : e.values.find? (·.number = v.number) = some w
  value : y.defaultValue = .enum w.name (.ofInt v.number)

theorem startsFrom_of_field {call : Call} {pool : Pool} {new : List Descriptor.File}
    (hlink : ({} : Pool).link? new = some pool) (hfiles : AsDeclared call.declared? pool.files)
    {file scope : String} {dialect : Schema.Dialect} {x : Descriptor.Field} {y : Schema.Field}
    {e : Descriptor.Enum} (he : Pool.enum? pool.declarations (Descriptor.referent x.typeName) = some e)
    (hne : e.values ≠ []) (hcode : x.typeCode = Descriptor.enumCode)
    (hvalid : Pool.hasValidDefault pool.declarations x = true)
    (hy : Snapshot.field pool.declarations file scope dialect x = .ok y) :
    ∃ home e v w, StartsFrom call pool x y home e v w := by
  obtain ⟨value, hvalue, hy⟩ := bind_eq_ok hy
  cases hy
  obtain ⟨v, w, hstarts, hw, rfl⟩ := Snapshot.default_starts he hne hcode hvalid hvalue
  -- The enum of the linked pool is the declared one but for options, so it has the same values.
  obtain ⟨g, hg, hin⟩ := Pool.enum?_declared hlink he
  obtain ⟨d, hd, hbare⟩ := hfiles g hg
  obtain ⟨⟨fullName, e'⟩, hin', hname, he'⟩ :=
    exists_of_forall₂_right (Descriptor.forall₂_enumTree_of_bare hbare.symm) hin
  obtain ⟨v', hstarts', hvbare⟩ := hstarts.of_bare he'
  obtain ⟨w', hw', hwbare⟩ := Descriptor.find?_value_of_bare he' (fun _ => rfl) hw
  have hvnumber := (Descriptor.EnumValue.same_of_bare hvbare).2
  have hwname := (Descriptor.EnumValue.same_of_bare hwbare).1
  have hfull : Descriptor.referent x.typeName = fullName := hname
  refine ⟨g.name, e', v', w', List.mem_map_of_mem hg, ⟨d, hd, hfull ▸ hin'⟩, ?_, hstarts', ?_, ?_⟩
  · show Snapshot.typeName? x = _
    rw [Snapshot.typeName?, if_pos (.inr hcode)]
  · rw [hvnumber, hw']
  · rw [hvnumber, hwname]

theorem showsFirst_of_field {call : Call} {pool : Pool} {new : List Descriptor.File}
    (hlink : ({} : Pool).link? new = some pool) (hfiles : AsDeclared call.declared? pool.files)
    {file scope text : String} {dialect : Schema.Dialect} {x : Descriptor.Field} {y : Schema.Field}
    (hvalid : Pool.hasValidDefault pool.declarations x = true)
    (hy : Snapshot.field pool.declarations file scope dialect x = .ok y)
    (hlabel : x.label ≠ .repeated) (htext : x.defaultText = some text) (hkind : y.kind = .enum) :
    ∃ e named first, ShowsFirst call y text e named first := by
  have hcode := Snapshot.enumCode_of_field hy hkind
  obtain ⟨e, v, he, hv⟩ := Pool.named_of_hasValidDefault hvalid htext hcode
  have hne := List.ne_nil_of_mem (List.mem_of_find?_eq_some hv)
  obtain ⟨home, e', v', w', hstart⟩ := startsFrom_of_field hlink hfiles he hne hcode hvalid hy
  obtain ⟨d, hd, hin⟩ := hstart.declares
  have hnamed : e'.values.find? (·.name = text) = some v' := by
    cases hstart.starts with
    | named _ htext' hv' =>
      rw [htext] at htext'
      rwa [Option.some.inj htext']
    | first hdefault _ =>
      rcases hdefault with hrepeated | hnone
      · exact absurd hrepeated hlabel
      · rw [htext] at hnone
        cases hnone
  refine ⟨e', v', w', ⟨_, hstart.typeName, home, d, hd, hin⟩, hnamed, hstart.first, hstart.value, ?_⟩
  rw [Schema.Field.defaultClause?, hkind, hstart.value]
  rfl

/-- An enum default is shown as the first declared value that has the number of the named one. That it is the
first rests on the way in which `Pool.searchBase` bisects: a standard library may change, from one release to
the next, which of several equal numbers its binary search finds. -/
theorem enumDefault_byNumber (call : Call) (name : String) (file : Schema.File)
    (h : (name, file) ∈ call.load.stores) :
    ∃ d, call.declared? name = some d ∧
      List.Forall₂ (DefaultsByNumber call) d.messageTree file.messageTree := by
  obtain ⟨pool, f, d, hfrom⟩ := call.stored_from h
  obtain ⟨new, hlink⟩ := hfrom.linking
  refine ⟨d, hfrom.declares, ?_⟩
  have hshown := (Snapshot.file_shown hfrom.snapshot).2
  refine (forall₂_meet (Descriptor.forall₂_messageTree_of_bare hfrom.bare) hshown).imp ?_
  rintro q m ⟨p, hp, ⟨hname, hbare⟩, hpm⟩
  refine ⟨by rw [hpm.fullName, hname], ?_⟩
  intro x hx
  -- The declared field is the linked one but for its type and its options.
  obtain ⟨x', hx', hsame⟩ := Descriptor.exists_field_of_bare hbare hx
  obtain ⟨y, hy, hxy⟩ := exists_of_forall₂_right hpm.fields.flip
    ((Snapshot.orderedFields_perm _).mem_iff.mpr hx')
  obtain ⟨hxname, hxnumber, hlabel, htext⟩ := Descriptor.Field.same_of_bare hsame
  have hvalid := Pool.default_of_message hlink hfrom.mem hp x' hx'
  have hin := (Pool.numbers_of_message hlink hfrom.mem hp).2 x' hx'
  obtain ⟨hyname, hynumber⟩ := Snapshot.field_same hxy hin
  refine ⟨y, hy, hyname.trans hxname, hynumber.trans hxnumber, ?_⟩
  intro text hsingle hdefault hkind
  exact showsFirst_of_field hlink hfrom.others hvalid hxy (hlabel ▸ hsingle)
    (htext.trans hdefault) hkind

/-- A source of a field whose default names the second of two values that share a number. -/
def aliased : Call :=
  .file { contents := [("a.proto", "syntax = \"proto2\"; " ++
    "enum E \x7b option allow_alias = true; A = 0; B = 0; \x7d " ++
    "message M \x7b optional E e = 1 [default = B]; \x7d")] } {} "a.proto"

/-- The file that `aliased` stores. -/
def aliasedFile : Schema.File :=
  ⟨"a.proto", .proto2, "", [],
    [⟨"M", "M", [⟨"e", 1, .enum, true, false, .enum "A" 0, some "E"⟩], [], []⟩],
    [⟨"E", [⟨"B", 0⟩, ⟨"A", 0⟩]⟩], []⟩

theorem aliased_stored : ("a.proto", aliasedFile) ∈ aliased.load.stores := by decide +kernel

theorem enumDefault_byNumber_aliased : ("a.proto", aliasedFile) ∈ aliased.load.stores ∧
    ∃ d, aliased.declared? "a.proto" = some d ∧
      List.Forall₂ (DefaultsByNumber aliased) d.messageTree aliasedFile.messageTree :=
  ⟨aliased_stored, enumDefault_byNumber aliased "a.proto" aliasedFile aliased_stored⟩

/-- The name in an enum default is not what is shown of it. -/
theorem enumDefault_renamed :
    ¬∀ (call : Call) (name : String) (file : Schema.File) (d : Descriptor.File)
        (p : String × Descriptor.Message) (m : Schema.Message) (x : Descriptor.Field)
        (y : Schema.Field) (text : String),
      (name, file) ∈ call.load.stores → call.declared? name = some d →
      p ∈ d.messageTree → m ∈ file.messageTree → m.fullName = p.1 →
      x ∈ p.2.fields → y ∈ m.fields → y.name = x.name → y.kind = .enum →
      x.label ≠ .repeated → x.defaultText = some text →
        ∃ number, y.defaultValue = .enum text number := by
  intro h
  have hdeclared : (aliased.declared? "a.proto").any (fun d => d.messageTree.any fun p =>
      p.1 = "M" && p.2.fields.any fun x =>
        x.name = "e" && x.label ≠ .repeated && x.defaultText = some "B") = true := by
    decide +kernel
  simp only [Option.any_eq_true, List.any_eq_true, Bool.and_eq_true, decide_eq_true_eq] at hdeclared
  obtain ⟨d, hd, p, hp, hname, x, hx, ⟨hxname, hlabel⟩, htext⟩ := hdeclared
  obtain ⟨number, hnumber⟩ := h aliased "a.proto" aliasedFile d p _ x _ "B" aliased_stored hd hp
    List.mem_cons_self hname.symm hx List.mem_cons_self hxname.symm rfl hlabel htext
  have hnames : "A" = "B" := congrArg Schema.DefaultValue.text hnumber
  exact absurd hnames (by decide)

end Loader
end SchemaTree
