import SchemaTree.Proofs.Loader.Effect
import SchemaTree.Proofs.Loader.Origin
import SchemaTree.Proofs.Pool.Names
import SchemaTree.Proofs.Snapshot.Kinds
import SchemaTree.Proofs.Snapshot.Names

/-!
# Loaded sets are resolved

A descriptor set that is loaded into an empty registry leaves nothing open: all imports are registered,
every field that holds a message or an enum names one of a registered file, and full names are made up
of the names around a declaration. No two messages share one.
-/

namespace SchemaTree

/-! ### Resolved registries -/

/-- Whether every import of a registered file is registered. -/
def Registry.Closed (r : Registry) : Prop := ∀ f ∈ r.files, ∀ name ∈ f.imports, name ∈ r.names

/-- A registry in which every reference can be followed and every full name stands for one message. -/
structure Registry.Resolved (r : Registry) : Prop where
  imports : r.Closed
  messages : ∀ f ∈ r.files, ∀ m ∈ f.messageTree, ∀ x ∈ m.fields, x.kind = .message →
    ∃ g ∈ r.files, ∃ target ∈ g.messageTree, x.typeName = some target.fullName
  enums : ∀ f ∈ r.files, ∀ m ∈ f.messageTree, ∀ x ∈ m.fields, x.kind = .enum →
    ∃ g ∈ r.files, ∃ name ∈ g.enumNames, x.typeName = some name
  qualified : ∀ f ∈ r.files, Snapshot.Qualified f.package f.messages f.messageTree
  distinct : (r.files.flatMap fun f => f.messageTree.map (·.fullName)).Nodup

namespace Loader
open Descriptor (referent)

/-! ### Snapshots of a set -/

/-- What a set stores when it is loaded: the snapshots of the files of a linked pool, in their order and
under their names. -/
theorem loadSet_snapshots {bytes : Bytes} {n : Nat} (h : (loadSet bytes).outcome = .ok n) :
    ∃ new pool, ({} : Pool).link? new = some pool ∧
      List.Forall₂ (fun (f : Descriptor.File) (s : String × Schema.File) =>
        s.1 = f.name ∧ Snapshot.file pool.declarations f = .ok s.2) pool.files (loadSet bytes).stores := by
  obtain ⟨files, pool, hfiles, hlink⟩ := loadSet_ok h
  have hexplains := register_explains (sensible_of_set hfiles hlink)
  rw [← loadSet_eq hfiles hlink, h] at hexplains
  obtain ⟨_, _, hnames⟩ := hexplains
  rw [← Pool.link?_names hlink] at hnames
  refine ⟨files, pool, hlink, (forall₂_and_mem (forall₂_of_map_eq hnames)).imp ?_⟩
  rintro f s ⟨hname, hf, hs⟩
  rw [loadSet_eq hfiles hlink] at hs
  obtain ⟨g, hg, hsnapshot⟩ := mem_stores hs
  have hnodup : (pool.files.map (·.name)).Nodup := Pool.link?_names hlink ▸ Pool.link?_nodup hlink
  rw [Pool.file?, hname, find?_of_nodup hnodup hf] at hg
  cases hg
  exact ⟨hname, hsnapshot⟩

theorem loadSet_names_nodup (bytes : Bytes) : ((loadSet bytes).stores.map (·.1)).Nodup :=
  (Call.set bytes).stores_nodup

theorem loadSet_files (bytes : Bytes) :
    ((loadSet bytes).run ∅).files.Perm ((loadSet bytes).stores.map (·.2)) :=
  (Load.entries_run (loadSet_names_nodup bytes)).map _

/-! ### Imports -/

theorem import_stored {bytes : Bytes} {n : Nat} (h : (loadSet bytes).outcome = .ok n)
    {file : Schema.File} (hfile : file ∈ (loadSet bytes).stores.map (·.2)) {name : String}
    (hname : name ∈ file.imports) : name ∈ (loadSet bytes).stores.map (·.1) := by
  obtain ⟨new, pool, hlink, hsnapshots⟩ := loadSet_snapshots h
  obtain ⟨s, hs, rfl⟩ := List.mem_map.mp hfile
  obtain ⟨f, hf, _, hsnapshot⟩ := exists_of_forall₂_right hsnapshots hs
  rw [(Snapshot.file_named hsnapshot).imports] at hname
  rw [map_eq_of_forall₂ hsnapshots fun _ _ hfs => hfs.1]
  exact Pool.import_mem hlink hf hname

/-- A further set keeps a registry closed, whatever it replaces. -/
theorem closed_run {bytes : Bytes} {n : Nat} (h : (loadSet bytes).outcome = .ok n) {r : Registry}
    (hr : r.Closed) : ((loadSet bytes).run r).Closed := by
  have hnodup := loadSet_names_nodup bytes
  intro f hf name hname
  rw [Load.mem_names_run hnodup]
  rcases Load.mem_files_run hnodup r hf with hf | hf
  · exact .inl (import_stored h hf hname)
  · exact .inr (hr f hf name hname)

theorem closed_runs {sets : List Bytes} (hsets : ∀ b ∈ sets, ∃ n, (loadSet b).outcome = .ok n)
    {r : Registry} (hr : r.Closed) : (sets.foldl (fun r b => (loadSet b).run r) r).Closed := by
  induction sets generalizing r with
  | nil => exact hr
  | cons b sets ih =>
    obtain ⟨hb, hrest⟩ := List.forall_mem_cons.mp hsets
    obtain ⟨n, hn⟩ := hb
    exact ih hrest (closed_run hn hr)

/-! ### Fields -/

/-- A field of a stored file is the snapshot of a field of the linked file. -/
theorem field_source {ds : List Pool.Declaration} {f : Descriptor.File} {s : Schema.File}
    (h : Snapshot.file ds f = .ok s) {m : Schema.Message} (hm : m ∈ s.messageTree) {y : Schema.Field}
    (hy : y ∈ m.fields) : ∃ p ∈ f.messageTree, ∃ x ∈ p.2.fields,
      Snapshot.field ds f.name p.1 (Pool.dialectOf f) x = .ok y := by
  obtain ⟨p, hp, hpm⟩ := exists_of_forall₂_right (Snapshot.file_shown h).2 hm
  obtain ⟨x, hx, hxy⟩ := exists_of_forall₂_right hpm.fields hy
  exact ⟨p, hp, x, (Snapshot.orderedFields_perm _).mem_iff.mp hx, hxy⟩

/-- Files that are the snapshots of the files of a pool, in any order. -/
structure Shows (pool : Pool) (files : List Schema.File) : Prop where
  source : ∀ s ∈ files, ∃ f ∈ pool.files, Snapshot.file pool.declarations f = .ok s
  shown : ∀ f ∈ pool.files, ∃ s ∈ files, Snapshot.file pool.declarations f = .ok s

section
variable {pool : Pool} {new : List Descriptor.File} {files : List Schema.File}
  (hlink : ({} : Pool).link? new = some pool) (hfiles : Shows pool files)
  {s : Schema.File} (hs : s ∈ files) {m : Schema.Message} (hm : m ∈ s.messageTree)
  {y : Schema.Field} (hy : y ∈ m.fields)
include hlink hfiles hs hm hy

theorem message_shown_of_field (hkind : y.kind = .message) :
    ∃ t ∈ files, ∃ target ∈ t.messageTree, y.typeName = some target.fullName := by
  obtain ⟨f, hf, hsnapshot⟩ := hfiles.source s hs
  obtain ⟨p, hp, x, hx, hxy⟩ := field_source hsnapshot hm hy
  obtain ⟨_, _, hxy⟩ := bind_eq_ok hxy
  cases hxy
  have hcode := Schema.Kind.code_of_message hkind
  obtain ⟨g, hg, target, hin⟩ := Pool.message_of_field hlink hf hp hx hcode
  obtain ⟨t, ht, htsnapshot⟩ := hfiles.shown g hg
  have hmem : referent x.typeName ∈ t.messageTree.map (·.fullName) := by
    rw [(Snapshot.file_named htsnapshot).messages]
    exact List.mem_map.mpr ⟨_, hin, rfl⟩
  obtain ⟨n, hn, hname⟩ := List.mem_map.mp hmem
  refine ⟨t, ht, n, hn, ?_⟩
  show Snapshot.typeName? x = _
  rw [Snapshot.typeName?, if_pos (.inl hcode), hname]

theorem enum_shown_of_field (hkind : y.kind = .enum) :
    ∃ t ∈ files, ∃ name ∈ t.enumNames, y.typeName = some name := by
  obtain ⟨f, hf, hsnapshot⟩ := hfiles.source s hs
  obtain ⟨p, hp, x, hx, hxy⟩ := field_source hsnapshot hm hy
  obtain ⟨_, _, hxy⟩ := bind_eq_ok hxy
  cases hxy
  have hcode := Schema.Kind.code_of_enum hkind
  obtain ⟨e, he, _⟩ := Pool.enum_of_field hlink hf hp hx hcode
  obtain ⟨g, hg, hin⟩ := Pool.enum?_declared hlink he
  obtain ⟨t, ht, htsnapshot⟩ := hfiles.shown g hg
  refine ⟨t, ht, referent x.typeName, ?_, ?_⟩
  · rw [(Snapshot.file_named htsnapshot).enums]
    exact List.mem_map.mpr ⟨_, hin, rfl⟩
  · show Snapshot.typeName? x = _
    rw [Snapshot.typeName?, if_pos (.inr hcode)]

end

/-! ### Loaded sets -/

/-- A set that is loaded into an empty registry is resolved, and the imports stay registered whatever
sets are loaded after it. -/
theorem loadSet_resolved (bytes : Bytes) (n : Nat) (h : (loadSet bytes).outcome = .ok n) :
    ((loadSet bytes).run ∅).Resolved ∧
    ∀ more : List Bytes, (∀ b ∈ more, ∃ k, (loadSet b).outcome = .ok k) →
      (more.foldl (fun r b => (loadSet b).run r) ((loadSet bytes).run ∅)).Closed := by
  obtain ⟨new, pool, hlink, hsnapshots⟩ := loadSet_snapshots h
  have hperm := loadSet_files bytes
  have hclosed : ((loadSet bytes).run ∅).Closed := closed_run h fun f hf => by cases hf
  have hshows : Shows pool ((loadSet bytes).run ∅).files := by
    refine ⟨?_, ?_⟩
    · intro s hs
      obtain ⟨stored, hstored, rfl⟩ := List.mem_map.mp (hperm.mem_iff.mp hs)
      obtain ⟨f, hf, _, hfs⟩ := exists_of_forall₂_right hsnapshots hstored
      exact ⟨f, hf, hfs⟩
    · intro f hf
      obtain ⟨s, hs, _, hfs⟩ := exists_of_forall₂_right hsnapshots.flip hf
      exact ⟨s.2, hperm.mem_iff.mpr (List.mem_map_of_mem hs), hfs⟩
  refine ⟨⟨hclosed, ?_, ?_, ?_, ?_⟩, fun more hmore => closed_runs hmore hclosed⟩
  · exact fun s hs m hm y hy hkind => message_shown_of_field hlink hshows hs hm hy hkind
  · exact fun s hs m hm y hy hkind => enum_shown_of_field hlink hshows hs hm hy hkind
  · intro s hs
    obtain ⟨f, _, hfs⟩ := hshows.source s hs
    exact (Snapshot.file_named hfs).qualified
  · have hnames : ((loadSet bytes).stores.map (·.2)).flatMap (fun s => s.messageTree.map (·.fullName)) =
        pool.files.flatMap fun f => f.messageTree.map (·.1) := by
      rw [List.flatMap_map]
      exact flatMap_eq_of_forall₂ hsnapshots fun f s hfs => (Snapshot.file_named hfs.2).messages
    rw [(hperm.flatMap_right _).nodup_iff, hnames]
    exact Pool.messageTree_nodup hlink

/-- The bytes of a set of two files. The first imports the second, and has a message with fields of a
message and of an enum in it. -/
def importingSet : Bytes :=
  [0x0a, 0x40, 0x0a, 0x07, 0x61, 0x2e, 0x70, 0x72, 0x6f, 0x74, 0x6f,
    0x1a, 0x07, 0x62, 0x2e, 0x70, 0x72, 0x6f, 0x74, 0x6f,
    0x22, 0x2c, 0x0a, 0x01, 0x41,
      0x12, 0x0f, 0x0a, 0x01, 0x6d, 0x18, 0x01, 0x20, 0x01, 0x28, 0x0b,
        0x32, 0x04, 0x2e, 0x70, 0x2e, 0x4d,
      0x12, 0x11, 0x0a, 0x01, 0x65, 0x18, 0x02, 0x20, 0x01, 0x28, 0x0e,
        0x32, 0x06, 0x2e, 0x70, 0x2e, 0x4d, 0x2e, 0x45,
      0x1a, 0x03, 0x0a, 0x01, 0x42,
    0x0a, 0x1d, 0x0a, 0x07, 0x62, 0x2e, 0x70, 0x72, 0x6f, 0x74, 0x6f, 0x12, 0x01, 0x70,
    0x22, 0x0f, 0x0a, 0x01, 0x4d,
      0x22, 0x0a, 0x0a, 0x01, 0x45, 0x12, 0x05, 0x0a, 0x01, 0x5a, 0x10, 0x00]

theorem loadSet_resolved_importing : (loadSet importingSet).outcome = .ok 2 ∧
    ((loadSet importingSet).run ∅).Resolved ∧
    ∀ more : List Bytes, (∀ b ∈ more, ∃ k, (loadSet b).outcome = .ok k) →
      (more.foldl (fun r b => (loadSet b).run r) ((loadSet importingSet).run ∅)).Closed := by
  have hok : (loadSet importingSet).outcome = .ok 2 := by decide +kernel
  exact ⟨hok, loadSet_resolved importingSet 2 hok⟩

/-- The bytes of a set with a message without a name in no package, and a message nested in it. -/
def unnamedSet : Bytes :=
  [0x0a, 0x12, 0x0a, 0x07, 0x61, 0x2e, 0x70, 0x72, 0x6f, 0x74, 0x6f,
    0x22, 0x07, 0x0a, 0x00, 0x1a, 0x03, 0x0a, 0x01, 0x4e]

/-- No dot follows a full name that is empty. -/
theorem nested_undotted : ¬∀ (bytes : Bytes) (n : Nat), (loadSet bytes).outcome = .ok n →
    ∀ f ∈ ((loadSet bytes).run ∅).files, ∀ m ∈ f.messageTree, ∀ inner ∈ m.messages,
      inner.fullName = m.fullName ++ "." ++ inner.name := by
  intro h
  have hok : (loadSet unnamedSet).outcome = .ok 1 := by decide +kernel
  have hdotted := h unnamedSet 1 hok
  have hplain : ((loadSet unnamedSet).run ∅).files.any (fun f => f.messageTree.any fun m =>
      m.messages.any fun inner => inner.fullName ≠ m.fullName ++ "." ++ inner.name) = true := by
    decide +kernel
  simp only [List.any_eq_true, decide_eq_true_eq] at hplain
  obtain ⟨f, hf, m, hm, inner, hinner, hne⟩ := hplain
  exact hne (hdotted f hf m hm inner hinner)

end Loader
end SchemaTree
