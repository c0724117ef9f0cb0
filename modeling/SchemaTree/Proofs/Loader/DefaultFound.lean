import SchemaTree.Proofs.Loader.EnumDefault
import SchemaTree.Proofs.Loader.Enums
import SchemaTree.Proofs.Loader.Mirror

/-!
# Enum defaults are found

No load fails for an enum default. The default of a field that holds an enum is a value of that enum, with
the number of the value that the declared default names, or else of the first one, in whatever order the
numbers are declared.
-/

namespace SchemaTree.Loader
open Descriptor (EnumValue)

/-- The default of a field as it is declared and as it is kept: `e` is the enum of the field, declared in
a file of the call, `v` the value that the default comes from, and `shown` the name that it is shown under. -/
structure DefaultFound (call : Call) (x : Descriptor.Field) (y : Schema.Field)
    (home fullName : String) (e : Descriptor.Enum) (v : EnumValue) (shown : String) : Prop where
  typeName : y.typeName = some fullName
  compiled : home ∈ call.compiled.map (·.name)
  declares : ∃ d, call.declared? home = some d ∧ (fullName, e) ∈ d.enumTree
  kept : ∀ file, (home, file) ∈ call.load.stores → (fullName, Snapshot.enum e) ∈ file.enumTree
  starts : Snapshot.Starts e x v
  value : y.defaultValue = .enum shown (.ofInt v.number)
  mem : ⟨shown, .ofInt v.number⟩ ∈ (Snapshot.enum e).values
  fits : (Int32.ofInt v.number).toInt = v.number

theorem mem_enum_values {e : Descriptor.Enum} {w : EnumValue} (h : w ∈ e.values) :
    ⟨w.name, .ofInt w.number⟩ ∈ (Snapshot.enum e).values :=
  List.mem_map_of_mem ((Pool.orderedValues_perm e.values).mem_iff.mpr h)

theorem StartsFrom.found {call : Call} {pool : Pool} {x x' : Descriptor.Field} {y : Schema.Field}
    {home : String} {e : Descriptor.Enum} {v w : EnumValue} (h : StartsFrom call pool x y home e v w)
    (hlink : ({} : Pool).link? call.compiled = some pool) (hsame : x'.bare = x.bare) :
    DefaultFound call x' y home (Descriptor.referent x.typeName) e v w.name := by
  obtain ⟨d, hd, hin⟩ := h.declares
  have hw := List.mem_of_find?_eq_some h.first
  have hnumber : w.number = v.number := by simpa using List.find?_some h.first
  obtain ⟨-, -, hlabel, htext⟩ := Descriptor.Field.same_of_bare hsame
  refine ⟨h.typeName, ?_, h.declares, ?_, ?_, h.value, ?_, ?_⟩
  · rw [← Pool.link?_names hlink]
    exact h.linked
  · intro file hfile
    rw [call.stored_enumTree hfile hd]
    exact List.mem_map_of_mem hin
  · cases h.starts with
    | named hsingle hdefault hv => exact .named (hlabel ▸ hsingle) (htext.trans hdefault) hv
    | first hdefault hv => exact .first (hlabel ▸ htext ▸ hdefault) hv
  · rw [← hnumber]
    exact mem_enum_values hw
  · exact toInt_of_isInt32 (call.declared?_int32 hd _ hin v h.starts.mem)

/-- A declared message under its full name and the message kept for it: every default that belongs to an
enum is found in it. -/
structure DefaultsFound (call : Call) (p : String × Descriptor.Message) (m : Schema.Message) : Prop where
  fullName : m.fullName = p.1
  fields : ∀ y ∈ m.fields, y.kind = .enum → ∃ x ∈ p.2.fields, y.name = x.name ∧
    (y.number.toNat : Int) = x.number ∧
    ∃ home fullName e v shown, DefaultFound call x y home fullName e v shown

/-- No load fails for an enum default, and in every file that it stores each default of a field that holds
an enum is a value of that enum: the one named in its declaration or the first one, by its number. -/
theorem enumDefaults_found (call : Call) :
    (∀ file entity details, call.load.outcome ≠ .error (.unresolved file entity details)) ∧
    ∀ name file, (name, file) ∈ call.load.stores → ∃ d, call.declared? name = some d ∧
      List.Forall₂ (DefaultsFound call) d.messageTree file.messageTree := by
  constructor
  · intro file entity details houtcome
    obtain ⟨_, _, hexplains⟩ := call.stores_explained
    rw [houtcome] at hexplains
    exact hexplains
  · intro name file h
    obtain ⟨pool, names, f, hplan, hf, hname, hsnapshot⟩ := call.stored_plan h
    have hlink := call.plan_links hplan
    obtain ⟨d, hd, hbare⟩ := call.plan_asDeclared hplan f hf
    refine ⟨d, by rw [← hname, hd], ?_⟩
    have hshown := (Snapshot.file_shown hsnapshot).2
    refine (forall₂_meet (Descriptor.forall₂_messageTree_of_bare hbare) hshown).imp ?_
    rintro q m ⟨p, hp, ⟨hfull, hmessage⟩, hpm⟩
    refine ⟨by rw [hpm.fullName, hfull], ?_⟩
    intro y hy hkind
    obtain ⟨x, hx, hxy⟩ := exists_of_forall₂_right hpm.fields hy
    have hx := (Snapshot.orderedFields_perm _).mem_iff.mp hx
    have hcode := Snapshot.enumCode_of_field hxy hkind
    -- The declared field is the linked one but for its type and its options.
    obtain ⟨x', hx', hsame⟩ := Descriptor.exists_field_of_bare hmessage.symm hx
    obtain ⟨hxname, hxnumber, -, -⟩ := Descriptor.Field.same_of_bare hsame
    obtain ⟨hyname, hynumber⟩ :=
      Snapshot.field_same hxy ((Pool.numbers_of_message hlink hf hp).2 x hx)
    obtain ⟨e, he, hne⟩ := Pool.enum_of_field hlink hf hp hx hcode
    obtain ⟨home, e', v, w, hstart⟩ := startsFrom_of_field hlink (call.plan_asDeclared hplan) he hne
      hcode (Pool.default_of_message hlink hf hp x hx) hxy
    exact ⟨x', hx', by rw [hyname, hxname], by rw [hynumber, hxnumber], home, _, e', v, w.name,
      hstart.found hlink hsame⟩

/-- A source whose fields hold an enum of an imported one, the values of which are in no order. -/
def defaulted : Call :=
  .file { contents := [
    ("a.proto", "import \"b.proto\"; message M \x7b optional E a = 1; repeated E b = 2;
      optional E c = 3 [default = N]; \x7d"),
    ("b.proto", "enum E \x7b P = 5; N = -1; Z = 0; \x7d")] } {} "a.proto"

/-- The file that `defaulted` stores. -/
def defaultedFile : Schema.File :=
  ⟨"a.proto", .proto2, "", ["b.proto"],
    [⟨"M", "M",
      [⟨"a", 1, .enum, true, false, .enum "P" 5, some "E"⟩,
        ⟨"b", 2, .enum, false, false, .enum "P" 5, some "E"⟩,
        ⟨"c", 3, .enum, true, false, .enum "N" (-1), some "E"⟩],
      [], []⟩], [], []⟩

theorem enumDefaults_found_unordered : ("a.proto", defaultedFile) ∈ defaulted.load.stores ∧
    (∀ file entity details, defaulted.load.outcome ≠ .error (.unresolved file entity details)) ∧
    ∃ d, defaulted.declared? "a.proto" = some d ∧
      List.Forall₂ (DefaultsFound defaulted) d.messageTree defaultedFile.messageTree := by
  have hstored : ("a.proto", defaultedFile) ∈ defaulted.load.stores := by decide +kernel
  obtain ⟨hresolved, hfound⟩ := enumDefaults_found defaulted
  exact ⟨hstored, hresolved, hfound "a.proto" defaultedFile hstored⟩

end SchemaTree.Loader
