import SchemaTree.Proofs.Tree.Element

/-!
# Descriptor sets are kept whole

A descriptor set that is loaded is kept file by file: nothing that it declares is lost, added or
doubled, neither in what is registered nor in the walk over it nor in its text tree.
-/

namespace SchemaTree.Loader

/-- A registered file that holds what a declared file holds, and shows each part of it once. -/
structure Whole (d : Descriptor.File) (s : Schema.File) : Prop where
  mirrors : FileMirrors d s
  walked : ∀ {σ : Type} (v : Visitor σ) (state : σ),
    walkFile v s state = (fileEvents s).foldl v.step state
  called : ((fileEvents s).flatMap Event.elements).Perm d.elements
  listed : ∀ indent, Tree.fileLines indent s =
    ((fileEvents s).flatMap Tree.eventItems).map (Tree.line indent)
  shown : (((fileEvents s).flatMap Tree.eventItems).filterMap Tree.element?).Perm
    (d.elements.map Element.unnumbered)

theorem whole_of_mirrors {d : Descriptor.File} {s : Schema.File} (h : FileMirrors d s) : Whole d s := by
  have hcalled := file_elements h
  refine ⟨h, fun v state => walkFile_eq_foldl v s state, hcalled,
    fun indent => Tree.fileLines_eq_items indent s, ?_⟩
  rw [Tree.events_lines]
  exact hcalled.map Element.unnumbered

/-- A registry whose walk and whose text tree show each part of some declared files once. -/
structure WholeRegistry (ds : List Descriptor.File) (r : Registry) : Prop where
  walked : ∀ {σ : Type} (v : Visitor σ) (state : σ), walk v r state = r.events.foldl v.step state
  called : (r.events.flatMap Event.elements).Perm (ds.flatMap fun d => d.elements)
  listed : ∀ indent, Tree.lines indent r = (r.events.flatMap Tree.eventItems).map (Tree.line indent)
  shown : ((r.events.flatMap Tree.eventItems).filterMap Tree.element?).Perm
    ((ds.flatMap fun d => d.elements).map Element.unnumbered)

theorem whole_elements {ds : List Descriptor.File} {ss : List Schema.File} (h : List.Forall₂ Whole ds ss) :
    (ss.flatMap fun s => (fileEvents s).flatMap Event.elements).Perm (ds.flatMap fun d => d.elements) := by
  induction h with
  | nil => exact .nil
  | cons hds _ ih => exact hds.called.append ih

/-- A registry of whole files, in any order, is whole. -/
theorem wholeRegistry_of_files {ds : List Descriptor.File} {ss : List Schema.File} {r : Registry}
    (hwhole : List.Forall₂ Whole ds ss) (hfiles : r.files.Perm ss) : WholeRegistry ds r := by
  have hcalled : (r.events.flatMap Event.elements).Perm (ds.flatMap fun d => d.elements) := by
    rw [Registry.events, List.flatMap_assoc]
    exact (hfiles.flatMap_right _).trans (whole_elements hwhole)
  refine ⟨fun v state => walk_eq_foldl v r state, hcalled, fun indent => Tree.lines_eq_events indent r, ?_⟩
  rw [Tree.events_lines]
  exact hcalled.map Element.unnumbered

/-- A file of a descriptor set is kept whole under its name. -/
theorem stored_whole {bytes : Bytes} {files : List Descriptor.File}
    (hfiles : Descriptor.readSet? bytes = some files) (hnodup : (files.map (·.name)).Nodup)
    {d : Descriptor.File} (hd : d ∈ files) {s : Schema.File}
    (h : (d.name, s) ∈ (loadSet bytes).stores) : Whole d s := by
  have hstored : (d.name, s) ∈ (Call.set bytes).load.stores := h
  obtain ⟨pool, f, d', hfrom⟩ := Call.stored_from hstored
  obtain ⟨new, hlink⟩ := hfrom.linking
  -- No two files of the set share a name, so the file declared under the name is this one.
  have hsame : d' = d := by
    have hdeclares : setFile? bytes d.name = some d' := hfrom.declares
    rw [setFile?, hfiles, Option.bind_some, find?_of_nodup hnodup hd] at hdeclares
    exact (Option.some.inj hdeclares).symm
  refine whole_of_mirrors (file_mirrors hfrom.snapshot ?_ (Descriptor.readSet?_int32 hfiles d hd) ?_)
  · intro p hp
    exact (Pool.numbers_of_message hlink hfrom.mem hp).2
  · rw [hfrom.bare, hsame]

/-- A descriptor set that is loaded is kept whole, file by file in the order of the set, and each file is
found under its name in whatever registry it was loaded into. The registry that holds nothing else shows
each part of the set once. -/
theorem loadSet_whole (bytes : Bytes) (n : Nat) (h : (loadSet bytes).outcome = .ok n) :
    ∃ files, Descriptor.readSet? bytes = some files ∧ files.length = n ∧
      List.Forall₂ (fun d s => s.1 = d.name ∧ Whole d s.2) files (loadSet bytes).stores ∧
      (∀ (r : Registry), ∀ d ∈ files, ∃ s, ((loadSet bytes).run r).get? d.name = some s ∧ Whole d s) ∧
      WholeRegistry files ((loadSet bytes).run ∅) := by
  obtain ⟨files, pool, hfiles, hlink⟩ := loadSet_ok h
  have hexplains := register_explains (sensible_of_set hfiles hlink)
  rw [← loadSet_eq hfiles hlink, h] at hexplains
  obtain ⟨_, hlength, hnames⟩ := hexplains
  have hnodup := Pool.link?_nodup hlink
  have hwhole : List.Forall₂ (fun d s => s.1 = d.name ∧ Whole d s.2) files (loadSet bytes).stores := by
    refine (forall₂_and_mem (forall₂_of_map_eq hnames)).imp ?_
    rintro d ⟨name, s⟩ ⟨hname, hd, hs⟩
    cases hname
    exact ⟨rfl, stored_whole hfiles hnodup hd hs⟩
  have hstored : ((loadSet bytes).stores.map (·.1)).Nodup := by rwa [hnames]
  refine ⟨files, hfiles, ?_, hwhole, ?_, ?_⟩
  · rw [← hlength, hwhole.length_eq]
  · intro r d hd
    obtain ⟨⟨name, s⟩, hs, hname, hds⟩ := exists_of_forall₂_right hwhole.flip hd
    cases hname
    exact ⟨s, Load.get?_run_of_mem hstored hs r, hds⟩
  · have hshown : List.Forall₂ Whole files ((loadSet bytes).stores.map (·.2)) :=
      List.forall₂_map_right_iff.mpr (hwhole.imp fun _ _ hds => hds.2)
    exact wholeRegistry_of_files hshown ((Load.entries_run hstored).map _)

/-- The bytes of a set of one file, with a message and an enum whose numbers descend. -/
def descendingSet : Bytes :=
  [0x0a, 0x37, 0x0a, 0x07, 0x61, 0x2e, 0x70, 0x72, 0x6f, 0x74, 0x6f,
    0x22, 0x19, 0x0a, 0x01, 0x4d,
      0x12, 0x09, 0x0a, 0x01, 0x62, 0x18, 0x02, 0x20, 0x01, 0x28, 0x05,
      0x12, 0x09, 0x0a, 0x01, 0x61, 0x18, 0x01, 0x20, 0x01, 0x28, 0x05,
    0x2a, 0x11, 0x0a, 0x01, 0x45,
      0x12, 0x05, 0x0a, 0x01, 0x42, 0x10, 0x01,
      0x12, 0x05, 0x0a, 0x01, 0x41, 0x10, 0x00]

theorem loadSet_whole_descending : (loadSet descendingSet).outcome = .ok 1 ∧
    ∃ files, Descriptor.readSet? descendingSet = some files ∧ files.length = 1 ∧
      List.Forall₂ (fun d s => s.1 = d.name ∧ Whole d s.2) files (loadSet descendingSet).stores ∧
      (∀ (r : Registry), ∀ d ∈ files,
        ∃ s, ((loadSet descendingSet).run r).get? d.name = some s ∧ Whole d s) ∧
      WholeRegistry files ((loadSet descendingSet).run ∅) := by
  have hok : (loadSet descendingSet).outcome = .ok 1 := by decide +kernel
  exact ⟨hok, loadSet_whole descendingSet 1 hok⟩

end SchemaTree.Loader
