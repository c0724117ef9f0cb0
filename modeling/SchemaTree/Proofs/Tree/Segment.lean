import SchemaTree.Proofs.Registry
import SchemaTree.Proofs.Tree.Item

/-!
# Segments of a text tree

Each file has a segment of its own in a text tree, which nothing but the file and the indent decides. The
text tree of a registry is the segments of its files in the order of the names. So storing a file changes
the segment of its name, or inserts one at the place of the name, and leaves all other lines alone.
-/

namespace SchemaTree

/-! ### The files around a name -/

namespace Registry

/-- The files stored under names that are less than a name. -/
def below (r : Registry) (name : String) : List Schema.File :=
  (r.entries.filter fun e => e.1 < name).map (·.2)

/-- The files stored under names that are greater than a name. -/
def above (r : Registry) (name : String) : List Schema.File :=
  (r.entries.filter fun e => name < e.1).map (·.2)

/-- Placing an entry changes nothing among the entries that a condition on names selects, unless it
selects the name that is placed. -/
theorem filter_place {p : String → Bool} {name : String} (hp : p name = false) (file : Schema.File)
    (entries : List (String × Schema.File)) :
    (place name file entries).2.filter (fun e => p e.1) = entries.filter fun e => p e.1 := by
  induction entries with
  | nil => simp [place, hp]
  | cons x rest ih =>
    obtain ⟨other, f⟩ := x
    simp only [place]
    split
    · simp [hp]
    · split
      · rename_i heq
        simp [← heq, hp]
      · rw [List.filter_cons, ih, List.filter_cons]

theorem below_put (r : Registry) (name : String) (file : Schema.File) :
    (r.put name file).2.below name = r.below name := by
  have hname : decide (name < name) = false := decide_eq_false (String.lt_irrefl name)
  rw [below, put, filter_place (p := fun other => decide (other < name)) hname]
  rfl

theorem above_put (r : Registry) (name : String) (file : Schema.File) :
    (r.put name file).2.above name = r.above name := by
  have hname : decide (name < name) = false := decide_eq_false (String.lt_irrefl name)
  rw [above, put, filter_place (p := fun other => decide (name < other)) hname]
  rfl

theorem filter_of_above {name : String} {entries : List (String × Schema.File)}
    (h : ∀ e ∈ entries, name < e.1) : (entries.filter fun e => e.1 < name) = [] ∧
      entries.lookup name = none ∧ (entries.filter fun e => name < e.1) = entries := by
  refine ⟨List.filter_eq_nil_iff.mpr ?_, List.lookup_eq_none_iff.mpr ?_, List.filter_eq_self.mpr ?_⟩
  · intro e he
    simpa using String.lt_asymm (h e he)
  · intro e he
    have hne : name ≠ e.1 := fun heq => String.lt_irrefl name (heq ▸ h e he)
    exact bne_iff_ne.mpr hne
  · intro e he
    exact decide_eq_true (h e he)

/-- Sorted entries are those below a name, the entry of the name if there is one, and those above it. -/
theorem entries_around (name : String) {entries : List (String × Schema.File)}
    (h : entries.Pairwise fun a b => a.1 < b.1) :
    entries.map (·.2) = (entries.filter fun e => e.1 < name).map (·.2) ++
      ((entries.lookup name).toList ++ (entries.filter fun e => name < e.1).map (·.2)) := by
  induction entries with
  | nil => rfl
  | cons x rest ih =>
    obtain ⟨other, f⟩ := x
    obtain ⟨hlater, hrest⟩ := List.pairwise_cons.mp h
    by_cases hlt : name < other
    -- The names ascend: once one of them is above the name, all that follow are.
    · have habove : ∀ e ∈ (other, f) :: rest, name < e.1 :=
        List.forall_mem_cons.mpr ⟨hlt, fun e he => String.lt_trans hlt (hlater e he)⟩
      obtain ⟨hnone, hmissing, hall⟩ := filter_of_above habove
      rw [hnone, hmissing, hall]
      rfl
    · by_cases heq : name = other
      · subst heq
        obtain ⟨hnone, -, hall⟩ := filter_of_above hlater
        rw [List.filter_cons_of_neg (by simp), List.filter_cons_of_neg (by simp), hnone, hall,
          List.lookup_cons_self]
        rfl
      · have hbelow : other < name := lt_of_not_lt_of_ne hlt heq
        rw [List.filter_cons_of_pos (by simpa using hbelow), List.filter_cons_of_neg (by simpa using hlt),
          List.lookup_cons, beq_false_of_ne heq, List.map_cons, ih hrest]
        rfl

theorem files_around (r : Registry) (name : String) :
    r.files = r.below name ++ (r.get? name).toList ++ r.above name := by
  rw [List.append_assoc]
  exact entries_around name r.sorted

theorem files_put (r : Registry) (name : String) (file : Schema.File) :
    (r.put name file).2.files = r.below name ++ file :: r.above name := by
  rw [files_around _ name, below_put, above_put, get?_put, if_pos rfl, List.append_assoc]
  rfl

end Registry

namespace Tree

/-! ### The segment of a file -/

/-- A file adds the same lines whatever has been listed before it. -/
theorem walkFile_lister (indent : String) (file : Schema.File) (listed : Array String) :
    (walkFile (lister indent) file listed).toList = listed.toList ++ fileLines indent file := by
  rw [fileLines, walkFile_eq_foldl, walkFile_eq_foldl, lister_foldl, lister_foldl]
  rfl

theorem lines_eq_segments (indent : String) (registry : Registry) :
    lines indent registry = registry.files.flatMap (fileLines indent) := by
  -- The lines of the files before are all that the lister has kept when a file begins.
  have key (files : List Schema.File) (listed : Array String) :
      (files.foldl (fun listed file => walkFile (lister indent) file listed) listed).toList =
        listed.toList ++ files.flatMap (fileLines indent) := by
    induction files generalizing listed with
    | nil => exact (List.append_nil _).symm
    | cons file files ih =>
      rw [List.foldl_cons, ih, walkFile_lister, List.flatMap_cons, List.append_assoc]
  exact key registry.files #[]

/-- Each segment stands at the place of the name that its file is stored under. -/
theorem lines_eq_names (indent : String) (registry : Registry) : lines indent registry =
    registry.names.flatMap fun name => (registry.get? name).toList.flatMap (fileLines indent) := by
  have hfiles := congrArg (List.flatMap fun f : Option Schema.File => f.toList.flatMap (fileLines indent))
    registry.map_get?_names
  rw [List.flatMap_map, List.flatMap_map] at hfiles
  rw [hfiles, lines_eq_segments]
  simp only [Option.toList_some, List.flatMap_singleton]

/-! ### Lines as one text -/

theorem text_eq_join (indent : String) (registry : Registry) :
    text indent registry = String.join ((lines indent registry).map (· ++ "\n")) := by
  rw [text, String.join, List.foldl_map]
  simp only [String.append_assoc]

theorem write_eq (indent : String) (registry : Registry) (sink : String) :
    write (· ++ ·) indent registry sink = sink ++ text indent registry := by
  have hwrite : write (· ++ ·) indent registry sink =
      ((lines indent registry).map (· ++ "\n")).foldl (· ++ ·) (sink ++ "") := by
    rw [String.append_empty, List.foldl_map]
    rfl
  rw [hwrite, List.foldl_assoc, text_eq_join]
  rfl

/-- The text tree of a registry is the segments of its files in the order of the names, and as a text, also
one that is added to a sink, each of these lines with a line break after it. If a file is stored, its
segment takes the place of the one of its name, or stands between the segments of the names around it if
there is none, and these segments are the same as before. -/
theorem segments_independent (indent : String) (registry : Registry) :
    (lines indent registry =
      registry.names.flatMap fun name => (registry.get? name).toList.flatMap (fileLines indent)) ∧
    text indent registry = String.join ((lines indent registry).map (· ++ "\n")) ∧
    (∀ sink : String, write (· ++ ·) indent registry sink =
      sink ++ String.join ((lines indent registry).map (· ++ "\n"))) ∧
    ∀ (name : String) (file : Schema.File),
      lines indent registry = (registry.below name).flatMap (fileLines indent) ++
        (registry.get? name).toList.flatMap (fileLines indent) ++
        (registry.above name).flatMap (fileLines indent) ∧
      lines indent (registry.put name file).2 = (registry.below name).flatMap (fileLines indent) ++
        fileLines indent file ++ (registry.above name).flatMap (fileLines indent) := by
  refine ⟨lines_eq_names indent registry, text_eq_join indent registry, ?_, ?_⟩
  · intro sink
    rw [write_eq, text_eq_join]
  · intro name file
    constructor
    · rw [lines_eq_segments, registry.files_around name, List.flatMap_append, List.flatMap_append]
    · rw [lines_eq_segments, registry.files_put name, List.flatMap_append, List.flatMap_cons,
        List.append_assoc]

end Tree
end SchemaTree
