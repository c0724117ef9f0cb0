import Mathlib.Data.List.Sort
import SchemaTree.Command.Run
import SchemaTree.Proofs.Disk.Order

/-!
# The files of a directory

Paths are ordered by their components. A run over a directory takes up the files under it that have an
extension, each once and in that order, whatever the order in which the disk lists them.
-/

namespace SchemaTree.Command

/-! ### The order of paths -/

theorem componentsLe_total (a b : List String) : (componentsLe a b || componentsLe b a) = true := by
  induction a generalizing b with
  | nil => rfl
  | cons x xs ih =>
    cases b with
    | nil => rfl
    | cons y ys =>
      by_cases hxy : x = y
      · simp only [componentsLe, hxy, if_true]
        exact ih ys
      · have hyx : y ≠ x := fun h => hxy h.symm
        simp only [componentsLe, hxy, hyx, if_false, Bool.or_eq_true, decide_eq_true_eq]
        by_cases hlt : x < y
        · exact .inl hlt
        · exact .inr (Registry.lt_of_not_lt_of_ne hlt hxy)

theorem componentsLe_cons {x y : String} {xs ys : List String} :
    componentsLe (x :: xs) (y :: ys) = true ↔ x < y ∨ x = y ∧ componentsLe xs ys = true := by
  by_cases hxy : x = y
  · simp [componentsLe, hxy]
  · simp [componentsLe, hxy]

theorem componentsLe_trans (a b c : List String) (hab : componentsLe a b = true)
    (hbc : componentsLe b c = true) : componentsLe a c = true := by
  induction a generalizing b c with
  | nil => rfl
  | cons x xs ih =>
    cases b with
    | nil => cases hab
    | cons y ys =>
      cases c with
      | nil => cases hbc
      | cons z zs =>
        rw [componentsLe_cons] at hab hbc ⊢
        rcases hab with hxy | ⟨rfl, hxs⟩
        · rcases hbc with hyz | ⟨rfl, -⟩
          · exact .inl (String.lt_trans hxy hyz)
          · exact .inl hxy
        · rcases hbc with hyz | ⟨rfl, hys⟩
          · exact .inl hyz
          · exact .inr ⟨rfl, ih ys zs hxs hys⟩

theorem componentsLe_antisymm (a b : List String) (hab : componentsLe a b = true)
    (hba : componentsLe b a = true) : a = b := by
  induction a generalizing b with
  | nil =>
    cases b with
    | nil => rfl
    | cons y ys => cases hba
  | cons x xs ih =>
    cases b with
    | nil => cases hab
    | cons y ys =>
      rw [componentsLe_cons] at hab hba
      rcases hab with hxy | ⟨rfl, hxs⟩
      · rcases hba with hyx | ⟨rfl, -⟩
        · exact absurd (String.lt_trans hxy hyx) (String.lt_irrefl x)
        · exact absurd hxy (String.lt_irrefl _)
      · rcases hba with hlt | ⟨-, hys⟩
        · exact absurd hlt (String.lt_irrefl x)
        · rw [ih ys hxs hys]

/-! ### Files below a directory -/

theorem filesBelow_sorted (disk : Disk) (ext : String) (directory : List String) :
    (filesBelow disk ext directory).Pairwise fun a b => componentsLe a b = true :=
  List.pairwise_mergeSort componentsLe_trans componentsLe_total _

/-- A file below a directory, as it is taken from a node of the disk. -/
theorem below_of_node {directory below parts : List String} {node : Node} {ext : String}
    (h : (match node with
      | .file _ =>
        if directory.isPrefixOf parts && parts.getLast?.any (hasExtension ext) then
          some (parts.drop directory.length)
        else none
      | .directory => none) = some below) :
    (∃ contents, node = .file contents) ∧ parts = directory ++ below ∧
      parts.getLast?.any (hasExtension ext) = true := by
  cases node with
  | directory => cases h
  | file contents =>
    dsimp only at h
    split at h
    · rename_i hparts
      obtain ⟨hbegins, hext⟩ := Bool.and_eq_true_iff.mp hparts
      obtain ⟨rest, rfl⟩ := List.isPrefixOf_iff_prefix.mp hbegins
      rw [List.drop_left, Option.some.injEq] at h
      exact ⟨⟨contents, rfl⟩, by rw [h], hext⟩
    · cases h

theorem mem_filesBelow {disk : Disk} {ext : String} {directory below : List String} :
    below ∈ filesBelow disk ext directory ↔ ∃ contents,
      (directory ++ below, Node.file contents) ∈ disk.nodes ∧
        (directory ++ below).getLast?.any (hasExtension ext) = true := by
  unfold filesBelow
  rw [List.mem_mergeSort, List.mem_filterMap]
  constructor
  · rintro ⟨⟨parts, node⟩, hmem, h⟩
    obtain ⟨⟨contents, rfl⟩, rfl, hext⟩ := below_of_node h
    exact ⟨contents, hmem, hext⟩
  · rintro ⟨contents, hmem, hext⟩
    refine ⟨_, hmem, ?_⟩
    have hbegins : directory.isPrefixOf (directory ++ below) = true :=
      List.isPrefixOf_iff_prefix.mpr (List.prefix_append _ _)
    simp only [hbegins, hext, Bool.and_self, if_true, List.drop_left]

theorem filesBelow_nodup {disk : Disk} (h : (disk.nodes.map (·.1)).Nodup) (ext : String)
    (directory : List String) : (filesBelow disk ext directory).Nodup := by
  unfold filesBelow
  rw [(List.mergeSort_perm _ _).nodup_iff]
  refine List.Pairwise.filterMap _ ?_ (List.pairwise_map.mp h)
  rintro ⟨parts, node⟩ ⟨parts', node'⟩ hne x hx y hy rfl
  have hx := (below_of_node hx).2.1
  have hy := (below_of_node hy).2.1
  exact hne (hx.trans hy.symm)

/-- The order in which a disk lists its files does not matter, as they are sorted by their paths. -/
theorem filesBelow_reordered {a b : Disk} (h : a.Reordered b) (ext : String) (directory : List String) :
    filesBelow a ext directory = filesBelow b ext directory := by
  refine List.Perm.eq_of_pairwise (fun x y _ _ => componentsLe_antisymm x y)
    (filesBelow_sorted a ext directory) (filesBelow_sorted b ext directory) ?_
  refine (List.mergeSort_perm _ _).trans (List.Perm.trans ?_ (List.mergeSort_perm _ _).symm)
  exact h.perm.filterMap _

theorem filesUnder_reordered {a b : Disk} (h : a.Reordered b) (ext path : String) :
    filesUnder a ext path = filesUnder b ext path := by
  have hfile : a.isFile = b.isFile := funext h.isFile
  unfold filesUnder
  simp only [h.locate, filesBelow_reordered h, hfile]

/-- Whether some components lead from a directory to a file of the disk that has an extension and can be
reached. -/
structure Matches (disk : Disk) (ext path : String) (components : List String) : Prop where
  node : ∃ directory contents, disk.locate path = .ok directory ∧
    (directory ++ components, Node.file contents) ∈ disk.nodes ∧
    (directory ++ components).getLast?.any (hasExtension ext) = true
  reached : disk.isFile (components.foldl joinPaths path) = true

/-- The paths of the files below a directory that have an extension, by their components, each once. -/
def Listed (disk : Disk) (ext path : String) (files : List String) : Prop :=
  ∃ below : List (List String), files = below.map (·.foldl joinPaths path) ∧
    (below.Pairwise fun a b => componentsLe a b = true) ∧
    ((disk.nodes.map (·.1)).Nodup → below.Nodup) ∧
    ∀ components, components ∈ below ↔ Matches disk ext path components

theorem filesUnder_listed (disk : Disk) (ext path : String) :
    Listed disk ext path (filesUnder disk ext path) := by
  unfold filesUnder
  cases hlocate : disk.locate path with
  | error fault =>
    refine ⟨[], rfl, .nil, fun _ => .nil, fun components => iff_of_false List.not_mem_nil ?_⟩
    rintro ⟨⟨_, _, hplace, _⟩, _⟩
    rw [hlocate] at hplace
    cases hplace
  | ok directory =>
    refine ⟨_, List.filter_map, (filesBelow_sorted disk ext directory).filter _,
      fun hnodes => (filesBelow_nodup hnodes ext directory).filter _, fun components => ?_⟩
    rw [List.mem_filter, mem_filesBelow]
    constructor
    · rintro ⟨⟨contents, hnode, hext⟩, hreached⟩
      exact ⟨⟨directory, contents, hlocate, hnode, hext⟩, hreached⟩
    · rintro ⟨⟨_, contents, hplace, hnode, hext⟩, hreached⟩
      cases hlocate.symm.trans hplace
      exact ⟨⟨contents, hnode, hext⟩, hreached⟩

/-- If some file matches, files are listed. -/
theorem Listed.ne_nil {disk : Disk} {ext path : String} {files : List String}
    (h : Listed disk ext path files) (hmatch : ∃ components, Matches disk ext path components) :
    files ≠ [] := by
  obtain ⟨below, rfl, -, -, hbelow⟩ := h
  obtain ⟨components, hcomponents⟩ := hmatch
  exact List.ne_nil_of_mem (List.mem_map_of_mem ((hbelow components).mpr hcomponents))

end SchemaTree.Command
