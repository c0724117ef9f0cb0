import SchemaTree.Pool.Reference
import SchemaTree.Proofs.Descriptor.Nested

/-!
# What resolving keeps and what it settles

Resolving changes the types of fields and the messages of methods, and nothing that can be looked up
by name: the declarations of a file before and after are the same but for the contents of messages and
extensions. A field comes out with the code of a scalar, or it names an enum or a message that is
declared.
-/

namespace SchemaTree.Pool
open Descriptor

/-! ### Fields, messages and services -/

/-- Two fields of the same name, number, label and default. -/
def SameField (a b : Field) : Prop :=
  b.name = a.name ∧ b.number = a.number ∧ b.label = a.label ∧ b.defaultText = a.defaultText

theorem resolveType?_same {view : View} {scope : String} {x y : Field}
    (h : resolveType? view scope x = some y) : SameField x y := by
  unfold resolveType? at h
  split at h
  · obtain ⟨_, _, rfl⟩ := Option.map_eq_some_iff.mp h
    exact ⟨rfl, rfl, rfl, rfl⟩
  · obtain ⟨_, _, rfl⟩ := Option.map_eq_some_iff.mp h
    exact ⟨rfl, rfl, rfl, rfl⟩

theorem resolveType?_options {view : View} {scope : String} {x y : Field}
    (h : resolveType? view scope x = some y) : y.options = x.options := by
  unfold resolveType? at h
  split at h
  · obtain ⟨_, _, rfl⟩ := Option.map_eq_some_iff.mp h
    rfl
  · obtain ⟨_, _, rfl⟩ := Option.map_eq_some_iff.mp h
    rfl

theorem resolveExtension?_name {view : View} {scope : String} {x y : Field}
    (h : resolveExtension? view scope x = some y) : y.name = x.name := by
  obtain ⟨_, _, h⟩ := Option.bind_eq_some_iff.mp h
  exact (resolveType?_same h).1

theorem resolveService?_names {view : View} {scope : String} {s t : Service}
    (h : resolveService? view scope s = some t) :
    t.name = s.name ∧ t.methods.map (·.name) = s.methods.map (·.name) := by
  obtain ⟨methods, hmethods, h⟩ := Option.bind_eq_some_iff.mp h
  cases Option.some.inj h
  refine ⟨rfl, map_eq_of_forall₂ (forall₂_of_mapM hmethods) ?_⟩
  intro m m' hm
  obtain ⟨_, _, hm⟩ := Option.bind_eq_some_iff.mp hm
  obtain ⟨_, _, hm⟩ := Option.bind_eq_some_iff.mp hm
  cases Option.some.inj hm
  rfl

theorem resolveMessage?_eq_some {view : View} {fullName : String} {m m' : Message}
    (h : resolveMessage? view fullName m = some m') : ∃ fields extensions,
      List.Forall₂ (fun x y => resolveType? view fullName x = some y) m.fields fields ∧
      List.Forall₂ (fun x y => resolveExtension? view fullName x = some y) m.extensions extensions ∧
      m' = { m with fields, extensions } := by
  obtain ⟨fields, hfields, h⟩ := Option.bind_eq_some_iff.mp h
  obtain ⟨extensions, hextensions, h⟩ := Option.bind_eq_some_iff.mp h
  exact ⟨fields, extensions, forall₂_of_mapM hfields, forall₂_of_mapM hextensions,
    (Option.some.inj h).symm⟩

theorem resolveMessage?_keepsNames (view : View) : KeepsNames (resolveMessage? view) := by
  intro fullName m m' h
  obtain ⟨_, _, _, _, rfl⟩ := resolveMessage?_eq_some h
  rfl

theorem resolveFile?_eq_some {view : View} {f g : File} (h : resolveFile? view f = some g) :
    ∃ messages services extensions,
      List.Forall₂ (Changed (resolveMessage? view)) f.messageTree g.messageTree ∧
      List.Forall₂ (fun s t => resolveService? view f.package s = some t) f.services services ∧
      List.Forall₂ (fun x y => resolveExtension? view f.package x = some y) f.extensions extensions ∧
      g = { f with messages, services, extensions } := by
  obtain ⟨messages, hmessages, h⟩ := Option.bind_eq_some_iff.mp h
  obtain ⟨services, hservices, h⟩ := Option.bind_eq_some_iff.mp h
  obtain ⟨extensions, hextensions, h⟩ := Option.bind_eq_some_iff.mp h
  cases Option.some.inj h
  exact ⟨messages, services, extensions,
    trees_traverseAll? (resolveMessage?_keepsNames view) _ _ _ hmessages,
    forall₂_of_mapM hservices, forall₂_of_mapM hextensions, rfl⟩

theorem resolveFile?_name {view : View} {f g : File} (h : resolveFile? view f = some g) :
    g.name = f.name := by
  obtain ⟨_, _, _, _, _, _, rfl⟩ := resolveFile?_eq_some h
  rfl

theorem resolveFile?_layout {view : View} {f g : File} (h : resolveFile? view f = some g) :
    g.layout = f.layout := by
  obtain ⟨_, _, _, htree, _, _, hg⟩ := resolveFile?_eq_some h
  refine layout_eq_of_changed htree fun fullName m m' hm => ?_
  obtain ⟨fields, _, hfields, _, rfl⟩ := resolveMessage?_eq_some hm
  refine map_eq_of_forall₂ hfields fun x y hxy => ?_
  obtain ⟨hname, hnumber, -, -⟩ := resolveType?_same hxy
  rw [hname, hnumber]

/-! ### Declarations without contents -/

def Entry.bare : Entry → Entry
  | .message _ => .message {}
  | .extension _ => .extension {}
  | entry => entry

def Declaration.bare (d : Declaration) : Declaration := { d with entry := d.entry.bare }

def bareEntry (e : String × Entry) : String × Entry := (e.1, e.2.bare)

theorem messageEntries_changed {view : View} {before after : String × Message}
    (h : Changed (resolveMessage? view) before after) :
    (messageEntries after.1 after.2).map bareEntry =
      (messageEntries before.1 before.2).map bareEntry := by
  obtain ⟨hname, m, hm, hafter⟩ := h
  obtain ⟨fields, extensions, hfields, hextensions, rfl⟩ := resolveMessage?_eq_some hm
  have hf : fields.map (fun x => (qualify before.1 x.name, Entry.member)) =
      before.2.fields.map fun x => (qualify before.1 x.name, Entry.member) :=
    map_eq_of_forall₂ hfields fun x y hxy => by rw [(resolveType?_same hxy).1]
  have he : extensions.map (fun x => (qualify before.1 x.name, Entry.extension {})) =
      before.2.extensions.map fun x => (qualify before.1 x.name, Entry.extension {}) :=
    map_eq_of_forall₂ hextensions fun x y hxy => by rw [resolveExtension?_name hxy]
  rw [hname, hafter]
  simp only [messageEntries, extensionEntries, List.map_append, List.map_cons, List.map_map,
    Function.comp_def, bareEntry, Entry.bare] at hf he ⊢
  rw [hf, he]

theorem serviceEntries_resolved {view : View} {scope : String} {s t : Service}
    (h : resolveService? view scope s = some t) : serviceEntries scope t = serviceEntries scope s := by
  obtain ⟨hname, hmethods⟩ := resolveService?_names h
  have hnamed (l : List Method) : (l.map fun m => (qualify (qualify scope s.name) m.name, Entry.member)) =
      (l.map (·.name)).map fun n => (qualify (qualify scope s.name) n, Entry.member) := by
    simp only [List.map_map, Function.comp_def]
  simp only [serviceEntries, hname, hnamed, hmethods]

theorem entries_resolved {view : View} {f g : File} (h : resolveFile? view f = some g) :
    (entries g).map bareEntry = (entries f).map bareEntry := by
  obtain ⟨messages, services, extensions, htree, hservices, hextensions, rfl⟩ := resolveFile?_eq_some h
  have hm := flatMap_eq_of_forall₂ htree fun p q hpq => messageEntries_changed hpq
  have hs := flatMap_eq_of_forall₂ hservices fun s t hst => serviceEntries_resolved hst
  have he : extensions.map (fun x => (qualify f.package x.name, Entry.extension {})) =
      f.extensions.map fun x => (qualify f.package x.name, Entry.extension {}) :=
    map_eq_of_forall₂ hextensions fun x y hxy => by rw [resolveExtension?_name hxy]
  simp only [entries, List.map_append, List.map_flatMap, hm, hs]
  simp only [extensionEntries, List.map_map, Function.comp_def, bareEntry, Entry.bare] at he ⊢
  rw [he]

theorem declarationsOf_resolved {view : View} {f g : File} (h : resolveFile? view f = some g) :
    (declarationsOf g).map Declaration.bare = (declarationsOf f).map Declaration.bare := by
  have hbare (file : File) : (declarationsOf file).map Declaration.bare =
      ((entries file).map bareEntry).map fun e => ⟨e.1, file.name, dialectOf file, e.2⟩ := by
    simp only [declarationsOf, List.map_map]
    rfl
  rw [hbare, hbare, entries_resolved h]
  obtain ⟨_, _, _, _, _, _, rfl⟩ := resolveFile?_eq_some h
  rfl

/-! ### Looking up in declarations without contents -/

theorem find?_bare (ds : List Declaration) (name : String) :
    find? (ds.map Declaration.bare) name = (find? ds name).map Declaration.bare := by
  simp only [find?, List.find?_map]
  rfl

theorem enum?_bare (ds : List Declaration) (name : String) :
    enum? (ds.map Declaration.bare) name = enum? ds name := by
  simp only [enum?, find?_bare]
  rcases find? ds name with - | ⟨_, _, _, entry⟩
  · rfl
  · cases entry <;> rfl

/-! ### Types of resolved fields -/

theorem referent_absolute (name : String) : referent (absolute name) = name := by
  simp [referent, absolute, String.toList_append]

theorem ofFullName?_eq_some {view : View} {wanted : Wanted} {name : String} {d : Declaration}
    (h : view.ofFullName? wanted name = some d) :
    find? view.declarations name = some d ∧ d.name = name ∧ wanted.accepts d.entry = true := by
  unfold View.ofFullName? at h
  split at h
  · rename_i d' hd
    split at h
    · rename_i hok
      cases Option.some.inj h
      have hname := List.find?_some hd
      exact ⟨hd, of_decide_eq_true hname, (Bool.and_eq_true_iff.mp hok).1⟩
    · cases h
  · cases h

theorem resolve?_eq_some {view : View} {wanted : Wanted} {scope name : String} {d : Declaration}
    (h : view.resolve? wanted scope name = some d) :
    find? view.declarations d.name = some d ∧ wanted.accepts d.entry = true := by
  have key {full : String} (h : view.ofFullName? wanted full = some d) :
      find? view.declarations d.name = some d ∧ wanted.accepts d.entry = true := by
    obtain ⟨hfind, hname, hok⟩ := ofFullName?_eq_some h
    exact ⟨hname ▸ hfind, hok⟩
  unfold View.resolve? at h
  split at h
  · exact key h
  · split at h
    · obtain ⟨_, _, h⟩ := List.exists_of_findSome?_eq_some h
      exact key h
    · split at h
      · exact key h
      · cases h

/-- What the type of a resolved field is among some declarations. -/
inductive Typed (ds : List Declaration) (x : Field) : Prop
  | scalar : x.typeName = "" → scalarCode? x.typeCode = some x.typeCode → Typed ds x
  | enum (e : Enum) : x.typeCode = enumCode → enum? ds (referent x.typeName) = some e → Typed ds x
  | message : x.typeCode = messageCode ∨ x.typeCode = groupCode →
      (message? ds (referent x.typeName)).isSome → Typed ds x

theorem scalarCode?_idem {code c : Int} (h : scalarCode? code = some c) : scalarCode? c = some c := by
  unfold scalarCode? at h
  split at h
  · cases h
  · rename_i hnamed
    split at h
    · rename_i hrange
      cases Option.some.inj h
      rw [scalarCode?, if_neg hnamed, if_pos hrange]
    · cases Option.some.inj h
      rfl

theorem namedCode_message (code : Int) (m : Message) :
    namedCode code (.message m) = messageCode ∨ namedCode code (.message m) = groupCode := by
  rw [namedCode]
  split
  · exact .inr rfl
  · exact .inl rfl
  · nofun

theorem resolveType?_typed {view : View} {scope : String} {x y : Field}
    (h : resolveType? view scope x = some y) : Typed view.declarations y := by
  unfold resolveType? at h
  split at h
  · rename_i hname
    obtain ⟨c, hc, rfl⟩ := Option.map_eq_some_iff.mp h
    exact .scalar hname (scalarCode?_idem hc)
  · obtain ⟨⟨name, file, dialect, entry⟩, hd, rfl⟩ := Option.map_eq_some_iff.mp h
    obtain ⟨hfind, haccepts⟩ := resolve?_eq_some hd
    cases entry with
    | enum e => exact .enum e rfl (by simp only [enum?, referent_absolute, hfind])
    | message m =>
      refine .message (namedCode_message x.typeCode m) ?_
      simp only [message?, referent_absolute, hfind, Option.isSome_some]
    | package | extension _ | service | member => cases haccepts

/-- A field stays a group unless it turns out to name an enum. -/
theorem resolveType?_group {view : View} {scope : String} {x y : Field}
    (h : resolveType? view scope x = some y) :
    y.typeCode = groupCode ↔ x.typeCode = groupCode ∧ y.typeCode ≠ enumCode := by
  unfold resolveType? at h
  split at h
  · obtain ⟨c, hc, rfl⟩ := Option.map_eq_some_iff.mp h
    unfold scalarCode? at hc
    split at hc
    · cases hc
    · rename_i hnamed
      have hx : x.typeCode ≠ groupCode := fun hx => hnamed (.inl hx)
      split at hc
      · cases hc
        exact iff_of_false hx fun hx' => hx hx'.1
      · cases hc
        have hdouble : doubleCode ≠ groupCode := by decide
        exact iff_of_false hdouble fun hx' => hx hx'.1
  · obtain ⟨⟨_, _, _, entry⟩, hd, rfl⟩ := Option.map_eq_some_iff.mp h
    have haccepts := (resolve?_eq_some hd).2
    cases entry with
    | enum e =>
      have henum : enumCode ≠ groupCode := by decide
      exact iff_of_false henum fun hx => hx.2 rfl
    | message m =>
      simp only [namedCode]
      split
      · rename_i hx
        exact iff_of_true rfl ⟨hx, by decide⟩
      · rename_i hx
        exact iff_of_false (by decide) fun hx' => hx hx'.1
    | package | extension _ | service | member => cases haccepts

theorem message?_bare (ds : List Declaration) (name : String) :
    (message? (ds.map Declaration.bare) name).isSome = (message? ds name).isSome := by
  simp only [message?, find?_bare]
  rcases find? ds name with - | ⟨_, _, _, entry⟩
  · rfl
  · cases entry <;> rfl

/-- The type of a field is the same among declarations that differ in their contents only. -/
theorem Typed.of_bare {ds ds' : List Declaration} {x : Field} (h : Typed ds x)
    (hbare : ds'.map Declaration.bare = ds.map Declaration.bare) : Typed ds' x := by
  cases h with
  | scalar hname hcode => exact .scalar hname hcode
  | enum e hcode he =>
    refine .enum e hcode ?_
    rw [← enum?_bare, hbare, enum?_bare]
    exact he
  | message hcode hm =>
    refine .message hcode ?_
    rw [← message?_bare, hbare, message?_bare]
    exact hm

theorem Typed.enum_of_code {ds : List Declaration} {x : Field} (h : Typed ds x)
    (hcode : x.typeCode = enumCode) : ∃ e, enum? ds (referent x.typeName) = some e := by
  cases h with
  | scalar _ hscalar =>
    rw [hcode] at hscalar
    cases hscalar
  | enum e _ he => exact ⟨e, he⟩
  | message hmessage _ =>
    rw [hcode] at hmessage
    exact absurd hmessage (by decide)

theorem Typed.message_of_code {ds : List Declaration} {x : Field} (h : Typed ds x)
    (hcode : x.typeCode = messageCode) : (message? ds (referent x.typeName)).isSome := by
  cases h with
  | scalar _ hscalar =>
    rw [hcode] at hscalar
    cases hscalar
  | enum _ henum _ =>
    rw [hcode] at henum
    exact absurd henum (by decide)
  | message _ hm => exact hm

end SchemaTree.Pool
