import Mathlib.Data.List.Nodup
import SchemaTree.Loader.Load
import SchemaTree.Proofs.Registry

/-!
# What a load stores

The stores of a load are its events without the notes. Files that are taken up one after the other are
stored in their order, up to the first one that has no snapshot.
-/

namespace SchemaTree

namespace Load

theorem stores_append (before after : List Event) (outcome : Except Failure Nat) :
    (⟨before ++ after, outcome⟩ : Load).stores =
      (⟨before, outcome⟩ : Load).stores ++ (⟨after, outcome⟩ : Load).stores :=
  List.filterMap_append

theorem stores_notes {events : List Event} (h : ∀ e ∈ events, ∃ note, e = .note note)
    (rest : List Event) (outcome : Except Failure Nat) :
    (⟨events ++ rest, outcome⟩ : Load).stores = (⟨rest, outcome⟩ : Load).stores := by
  have hnone : (⟨events, outcome⟩ : Load).stores = [] := by
    unfold stores
    rw [List.filterMap_eq_nil_iff]
    intro e he
    obtain ⟨_, rfl⟩ := h e he
    rfl
  rw [stores_append, hnone, List.nil_append]

theorem stores_after {events : List Event} (h : ∀ e ∈ events, ∃ note, e = .note note)
    (load : Load) : (load.after events).stores = load.stores := stores_notes h _ _

theorem stores_failed {events : List Event} (h : ∀ e ∈ events, ∃ note, e = .note note)
    (failure : Failure) : (failed events failure).stores = [] := by
  have hnotes := stores_notes h [] (.error failure)
  rw [List.append_nil] at hnotes
  exact hnotes

/-- A stored file is found under its name after the load, if no other is stored under it. -/
theorem get?_run_of_mem {load : Load} (hnodup : (load.stores.map (·.1)).Nodup)
    {s : String × Schema.File} (hs : s ∈ load.stores) (r : Registry) :
    (load.run r).get? s.1 = some s.2 := by
  rw [run, Registry.get?_foldl_put _ hnodup, lookup_of_mem hnodup hs]
  rfl

section
variable {load : Load} (hnodup : (load.stores.map (·.1)).Nodup) (r : Registry)
include hnodup

theorem get?_run (name : String) :
    (load.run r).get? name = (load.stores.lookup name).or (r.get? name) :=
  Registry.get?_foldl_put load.stores hnodup r name

theorem mem_names_run {name : String} :
    name ∈ (load.run r).names ↔ name ∈ load.stores.map (·.1) ∨ name ∈ r.names := by
  simp only [Registry.mem_names, get?_run hnodup]
  constructor
  · rintro ⟨file, h⟩
    rcases Option.or_eq_some_iff.mp h with h | ⟨-, h⟩
    · exact .inl (List.mem_map_of_mem (mem_of_lookup h))
    · exact .inr ⟨file, h⟩
  · intro h
    cases hlookup : load.stores.lookup name with
    | some file => exact ⟨file, rfl⟩
    | none =>
      rcases h with h | h
      · obtain ⟨s, hs, rfl⟩ := List.mem_map.mp h
        rw [lookup_of_mem hnodup hs] at hlookup
        cases hlookup
      · exact h

theorem mem_files_run {file : Schema.File} (h : file ∈ (load.run r).files) :
    file ∈ load.stores.map (·.2) ∨ file ∈ r.files := by
  obtain ⟨name, h⟩ := (load.run r).mem_files.mp h
  rw [get?_run hnodup] at h
  rcases Option.or_eq_some_iff.mp h with h | ⟨-, h⟩
  · exact .inl (List.mem_map_of_mem (mem_of_lookup h))
  · exact .inr (r.mem_files.mpr ⟨name, h⟩)

/-- What a load leaves in an empty registry is what it stores. -/
theorem entries_run : (load.run ∅).entries.Perm load.stores := by
  refine (List.perm_ext_iff_of_nodup ?_ (.of_map _ hnodup)).mpr ?_
  · exact .of_map _ (load.run ∅).names_nodup
  · rintro ⟨name, file⟩
    rw [← Registry.get?_eq_some, get?_run hnodup, Registry.get?_empty, Option.or_none]
    exact ⟨mem_of_lookup, lookup_of_mem (s := (name, file)) hnodup⟩

end

end Load

namespace Loader

/-! ### The files one after the other -/

/-- Why a load stops at a file of a pool. -/
inductive Stopped (pool : Pool) (name : String) : Failure → Prop
  | missing (reason : String) : pool.file? name = none → Stopped pool name (.unexpected reason)
  | unshown (f : Descriptor.File) (failure : Failure) : pool.file? name = some f →
      Snapshot.file pool.declarations f = .error failure → Stopped pool name failure

/-- What has been stored of some names of a pool when the load of them ends: snapshots of the files
with these names, either of all of them or of those before the file that stopped the load. -/
structure Accounts (pool : Pool) (names : List String) (load : Load) : Prop where
  snapshots : ∀ s ∈ load.stores, ∃ f, pool.file? s.1 = some f ∧
    Snapshot.file pool.declarations f = .ok s.2
  ends : (load.outcome = .ok load.stores.length ∧ load.stores.map (·.1) = names) ∨
    ∃ name later failure, load.outcome = .error failure ∧ Stopped pool name failure ∧
      names = load.stores.map (·.1) ++ name :: later

theorem accounts_stopped {pool : Pool} {name : String} {later : List String} {failure : Failure}
    {events : List Load.Event} (hevents : ∀ e ∈ events, ∃ note, e = .note note)
    (h : Stopped pool name failure) : Accounts pool (name :: later) (.failed events failure) := by
  refine ⟨?_, .inr ⟨name, later, failure, rfl, h, ?_⟩⟩
  · intro s hs
    rw [Load.stores_failed hevents] at hs
    cases hs
  · rw [Load.stores_failed hevents]
    rfl

/-- One more file is stored before those of a load. -/
theorem accounts_stored {pool : Pool} {name : String} {names : List String} {f : Descriptor.File}
    {snapshot : Schema.File} {load whole : Load} (hfile : pool.file? name = some f)
    (hsnapshot : Snapshot.file pool.declarations f = .ok snapshot)
    (hstores : whole.stores = (name, snapshot) :: load.stores)
    (houtcome : whole.outcome = load.outcome.map (· + 1)) (h : Accounts pool names load) :
    Accounts pool (name :: names) whole := by
  obtain ⟨hshown, hends⟩ := h
  refine ⟨?_, ?_⟩
  · intro s hs
    rw [hstores] at hs
    rcases List.mem_cons.mp hs with rfl | hs
    · exact ⟨f, hfile, hsnapshot⟩
    · exact hshown s hs
  · rw [hstores, houtcome]
    rcases hends with ⟨hok, hnames⟩ | ⟨other, later, failure, herror, hstopped, hnames⟩
    · refine .inl ⟨?_, ?_⟩
      · rw [hok]
        rfl
      · rw [List.map_cons, hnames]
    · refine .inr ⟨other, later, failure, ?_, hstopped, ?_⟩
      · rw [herror]
        rfl
      · rw [hnames]
        rfl

theorem convertingNotes (f : Descriptor.File) : ∀ e ∈ (Snapshot.visited f).map fun message =>
    noteEvent .trace ("Converting message " ++ message), ∃ note, e = .note note := by
  intro e he
  obtain ⟨_, _, rfl⟩ := List.mem_map.mp he
  exact ⟨_, rfl⟩

theorem storeFiles_accounts (pool : Pool) (names : List String) :
    Accounts pool names (storeFiles pool names) := by
  induction names with
  | nil =>
    refine ⟨?_, .inl ⟨rfl, rfl⟩⟩
    intro s hs
    cases hs
  | cons name names ih =>
    unfold storeFiles
    split
    · rename_i hmissing
      exact accounts_stopped (fun e he => by cases he) (.missing _ hmissing)
    · rename_i f hfile
      dsimp only
      split
      · rename_i failure hfailure
        exact accounts_stopped (convertingNotes f) (.unshown f failure hfile hfailure)
      · rename_i snapshot hsnapshot
        refine accounts_stored hfile hsnapshot ?_ rfl ih
        exact Load.stores_notes (convertingNotes f) _ _

end Loader
end SchemaTree
