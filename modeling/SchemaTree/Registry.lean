import SchemaTree.Schema.Basic

/-!
# The registry of loaded files

A registry holds at most one file under each name, in the order of the names. Storing a file under a
name that is taken gives back the file there and leaves every other entry alone; `replaced_put` and
`get?_put` say so.
-/

namespace SchemaTree

/-- Files by name, the names strictly ascending. -/
structure Registry where
  entries : List (String × Schema.File)
  sorted : entries.Pairwise fun a b => a.1 < b.1

namespace Registry

/-- Places an entry among sorted entries, in place of one of the same name: the file that had the name
and the entries afterwards. -/
def place (name : String) (file : Schema.File) :
    List (String × Schema.File) → Option Schema.File × List (String × Schema.File)
  | [] => (none, [(name, file)])
  | (other, f) :: rest =>
    if name < other then (none, (name, file) :: (other, f) :: rest)
    else if name = other then (some f, (name, file) :: rest)
    else
      let placed := place name file rest
      (placed.1, (other, f) :: placed.2)

theorem mem_place {name : String} {file : Schema.File} {entries : List (String × Schema.File)}
    {e : String × Schema.File} (h : e ∈ (place name file entries).2) :
    e = (name, file) ∨ e ∈ entries := by
  induction entries with
  | nil => simpa [place] using h
  | cons x rest ih =>
    simp only [place] at h
    split at h
    · simpa using h
    · split at h
      · rcases List.mem_cons.1 h with h | h
        · exact .inl h
        · exact .inr (List.mem_cons_of_mem _ h)
      · rcases List.mem_cons.1 h with h | h
        · exact .inr (h ▸ List.mem_cons_self)
        · exact (ih h).imp_right (List.mem_cons_of_mem _)

theorem lt_of_not_lt_of_ne {a b : String} (h : ¬a < b) (h' : a ≠ b) : b < a :=
  String.not_le.1 fun hle => h' (String.le_antisymm hle (String.not_lt.1 h))

theorem place_sorted (name : String) (file : Schema.File) {entries : List (String × Schema.File)}
    (h : entries.Pairwise fun a b => a.1 < b.1) :
    (place name file entries).2.Pairwise fun a b => a.1 < b.1 := by
  induction entries with
  | nil => simp [place]
  | cons x rest ih =>
    have ⟨hx, hrest⟩ := List.pairwise_cons.1 h
    simp only [place]
    split
    · rename_i hlt
      refine List.pairwise_cons.2 ⟨fun e he => ?_, h⟩
      rcases List.mem_cons.1 he with rfl | he
      · exact hlt
      · exact String.lt_trans hlt (hx e he)
    · rename_i hlt
      split
      · rename_i heq
        exact List.pairwise_cons.2 ⟨fun e he => heq ▸ hx e he, hrest⟩
      · rename_i hne
        refine List.pairwise_cons.2 ⟨fun e he => ?_, ih hrest⟩
        rcases mem_place he with rfl | he
        · exact lt_of_not_lt_of_ne hlt hne
        · exact hx e he

def empty : Registry := ⟨[], .nil⟩

instance : EmptyCollection Registry := ⟨empty⟩
instance : Inhabited Registry := ⟨empty⟩

/-- Stores a file under a name: the file that it replaces and the registry afterwards. -/
def put (r : Registry) (name : String) (file : Schema.File) : Option Schema.File × Registry :=
  ((place name file r.entries).1, ⟨(place name file r.entries).2, place_sorted name file r.sorted⟩)

def get? (r : Registry) (name : String) : Option Schema.File := r.entries.lookup name

/-- Stores a file under its own name. -/
def insert (r : Registry) (file : Schema.File) : Option Schema.File × Registry := r.put file.name file

/-- Stores files under their own names, one after the other. -/
def extend (r : Registry) (files : List Schema.File) : Registry := files.foldl (fun r file => (r.insert file).2) r

def ofFiles (files : List Schema.File) : Registry := (∅ : Registry).extend files

def names (r : Registry) : List String := r.entries.map (·.1)

def files (r : Registry) : List Schema.File := r.entries.map (·.2)

def size (r : Registry) : Nat := r.entries.length

def isEmpty (r : Registry) : Bool := r.entries.isEmpty

/-! ### Looking up and storing -/

@[simp] theorem get?_empty (name : String) : (∅ : Registry).get? name = none := rfl

theorem lookup_pair (key other : String) (f : Schema.File) (rest : List (String × Schema.File)) :
    ((key, f) :: rest).lookup other = if other = key then some f else rest.lookup other := by
  rw [List.lookup_cons]
  by_cases hk : other = key
  · rw [if_pos hk, beq_iff_eq.2 hk]
  · rw [if_neg hk, beq_eq_false_iff_ne.2 hk]

theorem lookup_place (name : String) (file : Schema.File) (entries : List (String × Schema.File))
    (h : entries.Pairwise fun a b => a.1 < b.1) (other : String) :
    (place name file entries).2.lookup other =
      if other = name then some file else entries.lookup other := by
  induction entries with
  | nil => exact lookup_pair name other file []
  | cons x rest ih =>
    obtain ⟨key, f⟩ := x
    have ⟨_, hrest⟩ := List.pairwise_cons.1 h
    simp only [place]
    split
    · rw [lookup_pair]
    · split
      · rename_i heq
        rw [lookup_pair, lookup_pair, heq]
        split <;> rfl
      · rename_i hne
        rw [lookup_pair, lookup_pair, ih hrest]
        by_cases hk : other = key
        · rw [if_pos hk, if_pos hk, if_neg (hk ▸ Ne.symm hne)]
        · rw [if_neg hk, if_neg hk]

theorem replaced_place (name : String) (file : Schema.File) (entries : List (String × Schema.File))
    (h : entries.Pairwise fun a b => a.1 < b.1) :
    (place name file entries).1 = entries.lookup name := by
  induction entries with
  | nil => rfl
  | cons x rest ih =>
    obtain ⟨other, f⟩ := x
    have ⟨hfirst, hrest⟩ := List.pairwise_cons.1 h
    simp only [place]
    split
    · rename_i hlt
      -- All names that follow are greater still, so none of them is the name.
      have hnone : ((other, f) :: rest).lookup name = none := by
        rw [List.lookup_eq_none_iff]
        intro e he
        have hlater : name < e.1 := by
          rcases List.mem_cons.1 he with rfl | he
          · exact hlt
          · exact String.lt_trans hlt (hfirst e he)
        have hdistinct : name ≠ e.1 := fun heq => String.lt_irrefl e.1 (heq ▸ hlater)
        exact bne_iff_ne.2 hdistinct
      rw [hnone]
    · split
      · rename_i heq
        rw [lookup_pair, if_pos heq]
      · rename_i hne
        rw [lookup_pair, if_neg hne, ← ih hrest]

/-- A stored file is found under its name, and every other name is untouched. -/
theorem get?_put (r : Registry) (name other : String) (file : Schema.File) :
    (r.put name file).2.get? other = if other = name then some file else r.get? other :=
  lookup_place name file r.entries r.sorted other

/-- What a file replaces is the file found under its name before. -/
theorem replaced_put (r : Registry) (name : String) (file : Schema.File) :
    (r.put name file).1 = r.get? name := replaced_place name file r.entries r.sorted

@[simp] theorem length_names (r : Registry) : r.names.length = r.size := by simp [names, size]

end Registry
end SchemaTree
