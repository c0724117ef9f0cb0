import Mathlib.Data.List.Flatten
import SchemaTree.Proofs.Pool.Link

/-!
# Full names in a linked pool

Every import of a linked pool is there, no two of its messages share a full name, and neither do two
values of one enum. A field with the code of messages names one of the messages.
-/

namespace SchemaTree.Pool
open Descriptor

theorem import_mem {pool : Pool} {new : List File} (h : ({} : Pool).link? new = some pool) {f : File}
    (hf : f ∈ pool.files) {name : String} (hname : name ∈ f.imports) :
    name ∈ pool.files.map (·.name) := by
  obtain ⟨resolved, settled, hj⟩ := link?_joined h
  have hfiles : pool.files = resolved := hj.files
  rw [hfiles] at hf
  obtain ⟨g, hg, view, _, hgf⟩ := exists_of_forall₂_right hj.resolves hf
  obtain ⟨_, _, _, _, _, _, rfl⟩ := resolveFile?_eq_some hgf
  have hjoin := hj.names
  simp only [canJoin, Bool.and_eq_true, List.all_eq_true] at hjoin
  have hthere := (hjoin.2 g hg).1.1.2 name hname
  rw [link?_names h]
  simpa using hthere

/-! ### Names that are declared once -/

theorem distinct_bare (ds : List Declaration) : distinct (ds.map Declaration.bare) = distinct ds := by
  have hpackage : Declaration.isPackage ∘ Declaration.bare = Declaration.isPackage := by
    funext ⟨_, _, _, entry⟩
    cases entry <;> rfl
  have hother : (!·.isPackage) ∘ Declaration.bare = (!·.isPackage) := by
    funext d
    exact congrArg (!·) (congrFun hpackage d)
  simp only [distinct, List.filter_map, hpackage, hother, List.map_map]
  rfl

theorem link?_distinct {pool : Pool} {new : List File} (h : ({} : Pool).link? new = some pool) :
    distinct pool.declarations = true := by
  obtain ⟨resolved, settled, hj⟩ := link?_joined h
  rw [← distinct_bare, hj.bare_declarations, distinct_bare]
  unfold link? at h
  split at h
  · cases h
  · obtain ⟨_, hresolved, _⟩ := Option.bind_eq_some_iff.mp h
    simp only [resolveAll?] at hresolved
    split at hresolved
    · assumption
    · cases hresolved

/-! ### Names of messages -/

def Declaration.isMessage (d : Declaration) : Bool :=
  match d.entry with
  | .message _ => true
  | _ => false

theorem messageNames_nodup {ds : List Declaration} (h : distinct ds = true) :
    ((ds.filter Declaration.isMessage).map (·.name)).Nodup := by
  simp only [distinct, Bool.and_eq_true, decide_eq_true_eq] at h
  have hsub : ds.filter Declaration.isMessage =
      (ds.filter (!·.isPackage)).filter Declaration.isMessage := by
    rw [List.filter_filter]
    refine List.filter_congr fun d _ => ?_
    obtain ⟨_, _, _, entry⟩ := d
    cases entry <;> rfl
  rw [hsub]
  exact h.1.sublist (List.filter_sublist.map _)

/-- The messages among the declarations of a file are those of its tree. -/
theorem filter_declarationsOf (f : File) :
    ((declarationsOf f).filter Declaration.isMessage).map (·.name) = f.messageTree.map (·.1) := by
  have hnone {α : Type} (l : List α) : (l.flatMap fun _ => ([] : List (String × Entry))) = [] :=
    List.flatMap_eq_nil_iff.2 fun _ _ => rfl
  have hmessages : (f.messageTree.flatMap fun p => [(p.1, Entry.message p.2)]) =
      f.messageTree.map fun p => (p.1, Entry.message p.2) := List.map_eq_flatMap.symm
  simp [declarationsOf, entries, messageEntries, enumEntries, extensionEntries, serviceEntries,
    Declaration.isMessage, List.filter_map, List.filter_flatMap, Function.comp_def, hnone, hmessages]

/-- No two messages of a linked pool share a full name. -/
theorem messageTree_nodup {pool : Pool} {new : List File} (h : ({} : Pool).link? new = some pool) :
    (pool.files.flatMap fun f => f.messageTree.map (·.1)).Nodup := by
  have hnodup := messageNames_nodup (link?_distinct h)
  rw [link?_declarations h, List.filter_flatMap, List.map_flatMap] at hnodup
  simpa only [filter_declarationsOf] using hnodup

/-! ### Names of values -/

theorem sublist_flatMap_of_mem {l : List α} {a : α} (h : a ∈ l) (f : α → List β) :
    (f a).Sublist (l.flatMap f) := by
  simpa using (List.singleton_sublist.mpr h).flatMap f

/-- The values of an enum are members of the scope that the enum is declared in. -/
theorem values_sublist_entries {f : File} {p : String × Enum} (hp : p ∈ f.enumTree) :
    ∃ scope, (p.2.values.map fun v => (qualify scope v.name, Entry.member)).Sublist (entries f) := by
  have hentries {scope : String} {enums : List Enum} (hp : p ∈ namedEnums scope enums) :
      (p.2.values.map fun v => (qualify scope v.name, Entry.member)).Sublist
        (enums.flatMap (enumEntries scope)) := by
    obtain ⟨e, he, rfl⟩ := List.mem_map.mp hp
    exact (List.sublist_cons_self _ _).trans (sublist_flatMap_of_mem he (enumEntries scope))
  rcases List.mem_append.mp hp with hp | hp
  · obtain ⟨q, hq, hp⟩ := List.mem_flatMap.mp hp
    refine ⟨q.1, (hentries hp).trans ?_⟩
    have hmessage : (q.2.enums.flatMap (enumEntries q.1)).Sublist (messageEntries q.1 q.2) :=
      List.sublist_append_right _ _
    have htree := hmessage.trans (sublist_flatMap_of_mem hq fun q => messageEntries q.1 q.2)
    simp only [entries, List.append_assoc]
    exact htree.trans ((List.sublist_append_left _ _).trans (List.sublist_append_right _ _))
  · refine ⟨f.package, (hentries hp).trans ?_⟩
    simp only [entries, List.append_assoc]
    exact (List.sublist_append_left _ _).trans
      ((List.sublist_append_right _ _).trans (List.sublist_append_right _ _))

/-- No two values of an enum in a linked pool share a name. -/
theorem valueNames_nodup {pool : Pool} {new : List File} (h : ({} : Pool).link? new = some pool)
    {f : File} (hf : f ∈ pool.files) {p : String × Enum} (hp : p ∈ f.enumTree) :
    (p.2.values.map (·.name)).Nodup := by
  have hdistinct := link?_distinct h
  simp only [distinct, Bool.and_eq_true, decide_eq_true_eq] at hdistinct
  obtain ⟨scope, hvalues⟩ := values_sublist_entries hp
  have hfile : (declarationsOf f).Sublist pool.declarations := by
    rw [link?_declarations h]
    exact sublist_flatMap_of_mem hf declarationsOf
  let declare (e : String × Entry) : Declaration := ⟨e.1, f.name, dialectOf f, e.2⟩
  have hall := (hvalues.map declare).trans hfile
  have hnodup := hdistinct.1.sublist ((hall.filter (!·.isPackage)).map (·.name))
  simp only [List.filter_map, List.map_map, Function.comp_def, Declaration.isPackage, Bool.not_false,
    List.filter_true] at hnodup
  rw [← Function.comp_def (qualify scope), ← List.map_map] at hnodup
  exact hnodup.of_map

/-! ### Fields that hold messages -/

theorem message?_eq_some {ds : List Declaration} {name : String} {m : Message}
    (h : message? ds name = some m) : ∃ d, find? ds name = some d ∧ d.entry = .message m := by
  unfold message? at h
  split at h
  · rename_i hfind
    cases Option.some.inj h
    exact ⟨_, hfind, rfl⟩
  · cases h

theorem message_mem_messageTree {f : File} {name : String} {m : Message}
    (h : (name, Entry.message m) ∈ entries f) : (name, m) ∈ f.messageTree := by
  simpa [entries, messageEntries, enumEntries, extensionEntries, serviceEntries] using h

theorem message?_declared {pool : Pool} {new : List File} (h : ({} : Pool).link? new = some pool)
    {name : String} {m : Message} (hm : message? pool.declarations name = some m) :
    ∃ f ∈ pool.files, (name, m) ∈ f.messageTree := by
  obtain ⟨d, hd, hentry⟩ := message?_eq_some hm
  obtain ⟨f, hf, hin⟩ := find?_declared h hd
  rw [hentry] at hin
  exact ⟨f, hf, message_mem_messageTree hin⟩

/-- In a linked pool a field with the code of messages names a message of one of the files. -/
theorem message_of_field {pool : Pool} {new : List File} (h : ({} : Pool).link? new = some pool)
    {f : File} (hf : f ∈ pool.files) {p : String × Message} (hp : p ∈ f.messageTree) {x : Field}
    (hx : x ∈ p.2.fields) (hcode : x.typeCode = messageCode) :
    ∃ g ∈ pool.files, ∃ m, (referent x.typeName, m) ∈ g.messageTree := by
  have hsome := (typed_of_field h hf hp hx).message_of_code hcode
  obtain ⟨m, hm⟩ := Option.isSome_iff_exists.mp hsome
  obtain ⟨g, hg, hin⟩ := message?_declared h hm
  exact ⟨g, hg, m, hin⟩

end SchemaTree.Pool
