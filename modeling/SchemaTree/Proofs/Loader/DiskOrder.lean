import SchemaTree.Loader.Load
import SchemaTree.Proofs.Disk.Order

/-!
# Loads do not depend on the order of a disk

Sources are looked for by their paths, so a load from a reordered disk comes to the same, its notes
included.
-/

namespace SchemaTree.Disk.Reordered
open Loader

variable {a b : Disk}

theorem openOnDisk (h : Reordered a b) (name : String) (directories : List String) :
    Loader.openOnDisk a name directories = Loader.openOnDisk b name directories := by
  induction directories with
  | nil => rfl
  | cons directory more ih =>
    unfold Loader.openOnDisk
    simp only [h.read, ih]

theorem openSource (h : Reordered a b) (config : Config) (name : String) :
    Loader.openSource config a name = Loader.openSource config b name := by
  unfold Loader.openSource
  rw [h.openOnDisk]

theorem nameBound (h : Reordered a b) (config : Config) :
    Loader.nameBound config a = Loader.nameBound config b := by
  unfold Loader.nameBound
  rw [h.perm.length_eq]

theorem add (h : Reordered a b) (config : Config) (fuel : Nat) :
    Compilation.add config a fuel = Compilation.add config b fuel := by
  induction fuel with
  | zero => rfl
  | succ fuel ih =>
    funext importers c name
    unfold Compilation.add
    rw [h.openSource, ih]

theorem request (h : Reordered a b) (config : Config) (c : Compilation) (path : String) :
    c.request config a path = c.request config b path := by
  unfold Compilation.request
  rw [h.nameBound, h.add]

theorem compile (h : Reordered a b) (config : Config) (c : Compilation) (paths : List String) :
    Loader.compile config a c paths = Loader.compile config b c paths := by
  induction paths generalizing c with
  | nil => rfl
  | cons path paths ih =>
    unfold Loader.compile
    simp only [h.request, ih]

theorem parseFile (h : Reordered a b) (config : Config) (path : String) :
    Loader.parseFile config a path = Loader.parseFile config b path := by
  unfold Loader.parseFile parseFiles
  rw [h.compile]

theorem loadSetFile (h : Reordered a b) (path : String) :
    Loader.loadSetFile a path = Loader.loadSetFile b path := by
  unfold Loader.loadSetFile
  rw [h.read]

end SchemaTree.Disk.Reordered
