import SchemaTree.Loader.Load

/-!
# Loads do not warn

The notes on a load tell of its progress. Warnings come only from what runs several loads.
-/

namespace SchemaTree

namespace Load

/-- None of the notes among some events is a warning. -/
def Quiet (events : List Event) : Prop := ∀ note, Event.note note ∈ events → note.level ≠ .warn

theorem quiet_nil : Quiet [] := by
  intro note h
  cases h

theorem quiet_cons_store {events : List Event} (name : String) (file : Schema.File)
    (h : Quiet events) : Quiet (.store name file :: events) := by
  intro note hnote
  rcases List.mem_cons.mp hnote with heq | hnote
  · cases heq
  · exact h note hnote

theorem quiet_cons_note {events : List Event} {level : Level} {text : String} (hlevel : level ≠ .warn)
    (h : Quiet events) : Quiet (Loader.noteEvent level text :: events) := by
  intro note hnote
  rcases List.mem_cons.mp hnote with heq | hnote
  · cases heq
    exact hlevel
  · exact h note hnote

theorem quiet_append {xs ys : List Event} (hx : Quiet xs) (hy : Quiet ys) : Quiet (xs ++ ys) := by
  intro note hnote
  rcases List.mem_append.mp hnote with hnote | hnote
  · exact hx note hnote
  · exact hy note hnote

/-- Notes on what is stored are no warnings either. -/
theorem notesOf_quiet {events : List Event} (h : Quiet events) (r : Registry) :
    ∀ note ∈ notesOf r events, note.level ≠ .warn := by
  induction events generalizing r with
  | nil =>
    intro note hnote
    cases hnote
  | cons e events ih =>
    have hrest : Quiet events := fun note hnote => h note (List.mem_cons_of_mem e hnote)
    intro note hnote
    cases e with
    | note n =>
      rcases List.mem_cons.mp hnote with rfl | hnote
      · exact h note List.mem_cons_self
      · exact ih hrest r note hnote
    | store name file =>
      rcases List.mem_cons.mp hnote with rfl | hnote
      · exact fun heq => Level.noConfusion heq
      · exact ih hrest (r.put name file).2 note hnote

end Load

namespace Loader
open Load

theorem storeFiles_quiet (pool : Pool) (names : List String) : Quiet (storeFiles pool names).events := by
  have hconversions (f : Descriptor.File) : Quiet ((Snapshot.visited f).map fun message =>
      noteEvent .trace ("Converting message " ++ message)) := by
    intro note hnote
    obtain ⟨_, _, heq⟩ := List.mem_map.mp hnote
    cases heq
    exact fun h => Level.noConfusion h
  induction names with
  | nil => exact quiet_nil
  | cons name names ih =>
    unfold storeFiles
    split
    · exact quiet_nil
    · rename_i f _
      dsimp only
      split
      · exact hconversions f
      · refine quiet_append (hconversions f) (quiet_cons_note (by decide) ?_)
        exact quiet_cons_store _ _ ih

theorem register_quiet (pool : Pool) (names : List String) : Quiet (register pool names).events := by
  unfold register
  split
  · exact quiet_nil
  · exact storeFiles_quiet pool names

theorem loadSet_quiet (bytes : Bytes) : Quiet (loadSet bytes).events := by
  unfold loadSet
  split
  · exact quiet_nil
  · split
    · exact quiet_nil
    · exact register_quiet _ _

theorem loadSetFile_quiet (disk : Disk) (path : String) : Quiet (loadSetFile disk path).events := by
  unfold loadSetFile
  split
  · exact quiet_nil
  · exact quiet_cons_note (by decide) (loadSet_quiet _)

theorem compile_quiet (config : Config) (disk : Disk) (c : Compilation) (paths : List String) :
    Quiet (compile config disk c paths).1 := by
  induction paths generalizing c with
  | nil => exact quiet_nil
  | cons path paths ih =>
    unfold compile
    dsimp only
    split
    · exact quiet_cons_note (by decide) quiet_nil
    · exact quiet_cons_note (by decide) (ih _)

theorem parseFiles_quiet (config : Config) (disk : Disk) (paths : List String) :
    Quiet (parseFiles config disk paths).events := by
  have hcompile := compile_quiet config disk {} paths
  unfold parseFiles
  split
  · rename_i events failure heq
    rw [heq] at hcompile
    exact hcompile
  · rename_i events c heq
    rw [heq] at hcompile
    split
    · exact hcompile
    · exact quiet_append hcompile (register_quiet _ _)

end Loader
end SchemaTree
