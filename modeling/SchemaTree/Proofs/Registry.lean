import Mathlib.Data.List.Sort
import SchemaTree.Proofs.Sequence
import SchemaTree.Registry

/-!
# The entries of a registry

Names are distinct, so that what a registry holds is what is found under its names. Nothing else counts:
registries in which the same files are found are equal.
-/

namespace SchemaTree

theorem lookup_of_mem {stores : List (String × Schema.File)} (hnodup : (stores.map (·.1)).Nodup)
    {s : String × Schema.File} (h : s ∈ stores) : stores.lookup s.1 = some s.2 := by
  induction stores with
  | nil => cases h
  | cons first rest ih =>
    obtain ⟨hfirst, hrest⟩ := List.nodup_cons.mp hnodup
    rw [List.lookup_cons]
    rcases List.mem_cons.mp h with rfl | h
    · rw [beq_self_eq_true]
    · have hne : s.1 ≠ first.1 := fun heq => hfirst (List.mem_map.mpr ⟨s, h, heq⟩)
      rw [beq_false_of_ne hne]
      exact ih hrest h

namespace Registry

/-- Storing files under distinct names changes what is found under these names and nothing else. -/
theorem get?_foldl_put (stores : List (String × Schema.File))
    (hnodup : (stores.map (·.1)).Nodup) (r : Registry) (name : String) :
    (stores.foldl (fun r (name, file) => (r.put name file).2) r).get? name =
      (stores.lookup name).or (r.get? name) := by
  induction stores generalizing r with
  | nil => rfl
  | cons s rest ih =>
    obtain ⟨key, file⟩ := s
    obtain ⟨hkey, hrest⟩ := List.nodup_cons.mp hnodup
    rw [List.foldl_cons, ih hrest, Registry.get?_put, List.lookup_cons]
    by_cases h : name = key
    -- The key does not occur again, so that what is stored first stays.
    · have hnone : rest.lookup name = none := by
        rw [List.lookup_eq_none_iff]
        intro p hp
        have hne : name ≠ p.1 := fun heq => hkey (List.mem_map.mpr ⟨p, hp, by rw [← heq, h]⟩)
        exact bne_iff_ne.mpr hne
      rw [hnone, if_pos h, beq_iff_eq.mpr h]
      rfl
    · rw [if_neg h, beq_false_of_ne h]

/-- Stores files under given names, one after the other. -/
def putAll (r : Registry) (stores : List (String × Schema.File)) : Registry :=
  stores.foldl (fun r (name, file) => (r.put name file).2) r

theorem putAll_append (r : Registry) (xs ys : List (String × Schema.File)) :
    r.putAll (xs ++ ys) = (r.putAll xs).putAll ys := List.foldl_append

theorem extend_eq (r : Registry) (files : List Schema.File) :
    r.extend files = r.putAll (files.map fun f => (f.name, f)) := by
  rw [putAll, List.foldl_map]
  rfl

/-- The file stored last under a name is found under it. -/
theorem get?_putAll (r : Registry) (stores : List (String × Schema.File)) (name : String) :
    (r.putAll stores).get? name = (stores.reverse.lookup name).or (r.get? name) := by
  induction stores generalizing r with
  | nil => rfl
  | cons s rest ih =>
    obtain ⟨key, file⟩ := s
    have hstep : (r.putAll ((key, file) :: rest)) = (r.put key file).2.putAll rest := rfl
    rw [hstep, ih, get?_put, List.reverse_cons, List.lookup_append, Option.or_assoc, List.lookup_cons]
    by_cases h : name = key
    · rw [if_pos h, beq_iff_eq.mpr h]
      rfl
    · rw [if_neg h, beq_false_of_ne h]
      rfl

section
variable (r : Registry)

theorem names_sorted : r.names.Pairwise (· < ·) := List.pairwise_map.2 r.sorted

theorem names_nodup : r.names.Nodup :=
  r.names_sorted.imp fun {a b} (h : a < b) (heq : a = b) => String.lt_irrefl b (heq ▸ h)

theorem get?_eq_some {name : String} {file : Schema.File} :
    r.get? name = some file ↔ (name, file) ∈ r.entries :=
  ⟨mem_of_lookup, lookup_of_mem (s := (name, file)) r.names_nodup⟩

theorem mem_names {name : String} : name ∈ r.names ↔ ∃ file, r.get? name = some file := by
  simp only [get?_eq_some, names, List.mem_map, Prod.exists, exists_and_right, exists_eq_right]

theorem mem_files {file : Schema.File} : file ∈ r.files ↔ ∃ name, r.get? name = some file := by
  simp only [get?_eq_some, files, List.mem_map, Prod.exists, exists_eq_right]

theorem map_get?_names : r.names.map r.get? = r.files.map some := by
  rw [names, files, List.map_map, List.map_map]
  exact List.map_congr_left fun e he => r.get?_eq_some.mpr he

end

/-- Registries in which the same is found under every name are equal. -/
theorem ext_get? {r s : Registry} (h : ∀ name, r.get? name = s.get? name) : r = s := by
  let before (a b : String × Schema.File) : Prop := a.1 < b.1
  have hirrefl : Std.Irrefl before := ⟨fun a => String.lt_irrefl a.1⟩
  have hantisymm : Std.Antisymm before :=
    ⟨fun a b hab hba => absurd (String.lt_trans hab hba) (String.lt_irrefl a.1)⟩
  have hmem (e : String × Schema.File) : e ∈ r.entries ↔ e ∈ s.entries := by
    obtain ⟨name, file⟩ := e
    rw [← get?_eq_some, ← get?_eq_some, h]
  have hentries : r.entries = s.entries :=
    List.Pairwise.eq_of_mem_iff (r := before) r.sorted s.sorted hmem
  cases r
  cases s
  cases hentries
  rfl

theorem mem_names_putAll (r : Registry) (stores : List (String × Schema.File)) {name : String} :
    name ∈ (r.putAll stores).names ↔ name ∈ stores.map (·.1) ∨ name ∈ r.names := by
  have hstored : name ∈ stores.map (·.1) ↔ ∃ file, stores.reverse.lookup name = some file := by
    simp [← Option.isSome_iff_exists, Option.isSome_iff_ne_none, List.lookup_eq_none_iff]
  rw [mem_names, mem_names, get?_putAll, hstored]
  cases stores.reverse.lookup name with
  | none => simp
  | some file => simp

end Registry
end SchemaTree
