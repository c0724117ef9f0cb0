import SchemaTree.Proofs.Loader.Plan

/-!
# Sources in memory hide the disk

A source in memory is found before anything on disk. If all that a file imports, directly or through
other files, is in memory too, then what it comes to to load the file is the same for every disk and for
all import paths, whichever of its spellings the path is given in.
-/

namespace SchemaTree

/-! ### Causes without details -/

/-- The cause of a failure, without its details. -/
inductive Failure.Kind
  | unreadable | unparsable | undecodable | unlinkable | unresolved | tooDeep | noFiles | unexpected
deriving DecidableEq, Repr

def Failure.kind : Failure → Kind
  | unreadable .. => .unreadable
  | unparsable .. => .unparsable
  | undecodable .. => .undecodable
  | unlinkable .. => .unlinkable
  | unresolved .. => .unresolved
  | tooDeep .. => .tooDeep
  | noFiles => .noFiles
  | unexpected .. => .unexpected

namespace Loader

/-! ### Imports in memory -/

/-- The imports of the source in memory with a name; a source that cannot be read has none. -/
def importsInMemory (contents : List (String × String)) (name : String) : List String :=
  match (contents.lookup name).bind (Source.read? name) with
  | some file => file.imports
  | none => []

/-- The names that are reached from a name through the imports of sources in memory. -/
inductive Reaches (contents : List (String × String)) (start : String) : String → Prop
  | start : Reaches contents start start
  | imported {name other : String} (reached : Reaches contents start name)
    (imports : other ∈ importsInMemory contents name) : Reaches contents start other

/-- Whether a name and all that is reached from it are in memory. -/
def SelfContained (contents : List (String × String)) (name : String) : Prop :=
  ∀ other, Reaches contents name other → other ∈ contents.map (·.1)

theorem Reaches.trans {contents : List (String × String)} {a b c : String}
    (hab : Reaches contents a b) (hbc : Reaches contents b c) : Reaches contents a c := by
  induction hbc with
  | start => exact hab
  | imported _ himports ih => exact ih.imported himports

/-- Names in memory whose imports are among them are self-contained. -/
theorem selfContained_of_closed {contents : List (String × String)} {names : List String}
    (hnames : ∀ name ∈ names, name ∈ contents.map (·.1))
    (himports : ∀ name ∈ names, ∀ other ∈ importsInMemory contents name, other ∈ names)
    {name : String} (h : name ∈ names) : SelfContained contents name := by
  intro other hreached
  apply hnames
  induction hreached with
  | start => exact h
  | imported _ hother ih => exact himports _ ih _ hother

theorem exists_lookup {contents : List (String × String)} {name : String}
    (h : name ∈ contents.map (·.1)) : ∃ source, contents.lookup name = some source := by
  obtain ⟨p, hp, hname⟩ := List.mem_map.mp h
  apply Option.isSome_iff_exists.mp
  exact List.lookup_isSome_iff.mpr ⟨p, hp, beq_iff_eq.mpr hname.symm⟩

section
variable {contents : List (String × String)} {name : String} (hclosed : SelfContained contents name)
include hclosed

theorem SelfContained.exists_source : ∃ source, contents.lookup name = some source :=
  exists_lookup (hclosed name .start)

theorem SelfContained.of_import {source other : String} {file : Descriptor.File}
    (hsource : contents.lookup name = some source) (hread : Source.read? name source = some file)
    (hother : other ∈ file.imports) : SelfContained contents other := by
  intro last hlast
  have himports : other ∈ importsInMemory contents name := by
    rw [importsInMemory, hsource, Option.bind_some, hread]
    exact hother
  exact hclosed last ((Reaches.start.imported himports).trans hlast)

end

/-! ### Adding files from memory -/

/-- Distinct names in memory are fewer than what a bound on them and on the names left allows. -/
theorem length_le_contents {contents : List (String × String)} {importers : List String}
    (hnodup : importers.Nodup) (hsub : ∀ i ∈ importers, i ∈ contents.map (·.1)) :
    importers.length ≤ contents.length := by
  have hle := (List.subperm_of_subset hnodup hsub).length_le
  rwa [List.length_map] at hle

theorem add_inMemory {contents : List (String × String)} {paths₁ paths₂ : List String}
    {disk₁ disk₂ : Disk} {fuel₁ fuel₂ : Nat} {importers : List String} {c : Compilation} {name : String}
    (hclosed : SelfContained contents name) (hnodup : importers.Nodup)
    (hsub : ∀ i ∈ importers, i ∈ contents.map (·.1))
    (hfuel₁ : contents.length < fuel₁ + importers.length)
    (hfuel₂ : contents.length < fuel₂ + importers.length) :
    Compilation.add ⟨paths₁, contents⟩ disk₁ fuel₁ importers c name =
      Compilation.add ⟨paths₂, contents⟩ disk₂ fuel₂ importers c name := by
  induction fuel₁ generalizing fuel₂ importers c name with
  | zero =>
    have hle := length_le_contents hnodup hsub
    omega
  | succ fuel₁ ih =>
    cases fuel₂ with
    | zero =>
      have hle := length_le_contents hnodup hsub
      omega
    | succ fuel₂ =>
      obtain ⟨source, hsource⟩ := hclosed.exists_source
      unfold Compilation.add
      split
      · rfl
      · rename_i hnew
        split
        · rfl
        · simp only [openSource, hsource, bind, Except.bind]
          cases hread : Source.read? name source with
          | none => rfl
          | some file =>
            have himports (other : String) (hother : other ∈ file.imports) (c : Compilation) :
                Compilation.add ⟨paths₁, contents⟩ disk₁ fuel₁ (name :: importers) c other =
                  Compilation.add ⟨paths₂, contents⟩ disk₂ fuel₂ (name :: importers) c other := by
              have hnotin : name ∉ importers := by simpa using hnew
              refine ih (hclosed.of_import hsource hread hother) (hnodup.cons hnotin) ?_ ?_ ?_
              · exact List.forall_mem_cons.mpr ⟨hclosed name .start, hsub⟩
              · rw [List.length_cons]
                omega
              · rw [List.length_cons]
                omega
            dsimp only
            rw [foldlM_congr_of_mem himports]

/-- Files that are added from memory have no place on disk. -/
theorem add_places {contents : List (String × String)} {paths : List String} {disk : Disk} {fuel : Nat}
    {importers : List String} {c c' : Compilation} {name : String}
    (hclosed : SelfContained contents name) (hc : ∀ p ∈ c.loaded, p.2 = none)
    (h : Compilation.add ⟨paths, contents⟩ disk fuel importers c name = .ok c') :
    ∀ p ∈ c'.loaded, p.2 = none := by
  induction fuel generalizing importers c c' name with
  | zero => cases h
  | succ fuel ih =>
    obtain ⟨source, hsource⟩ := hclosed.exists_source
    unfold Compilation.add at h
    split at h
    · cases h
    · split at h
      · cases h
        exact hc
      · simp only [openSource, hsource, bind, Except.bind] at h
        cases hread : Source.read? name source with
        | none =>
          rw [hread] at h
          cases h
        | some file =>
          rw [hread] at h
          obtain ⟨c₁, himports, hjoin⟩ := bind_eq_ok h
          have hc₁ : ∀ p ∈ c₁.loaded, p.2 = none := by
            refine foldlM_keeps_of_mem (P := fun c => ∀ p ∈ c.loaded, p.2 = none) himports hc ?_
            intro other hother c c' hc hadd
            exact ih (hclosed.of_import hsource hread hother) hc hadd
          obtain ⟨pool, _, rfl⟩ := Compilation.join_eq hjoin
          intro p hp
          rcases List.mem_append.mp hp with hp | hp
          · exact hc₁ p hp
          · rw [List.mem_singleton.mp hp]

/-! ### Spellings of a path -/

/-- Whether a path is a name after any number of `./`, some of its slashes perhaps written as
backslashes. -/
def Spells (path name : String) : Prop :=
  ∃ n, List.Forall₂ (fun written c => written = c ∨ written = '\\' ∧ c = '/') path.toList
    ((List.replicate n ['.', '/']).flatten ++ name.toList)

/-- Whether a name has no backslash and does not begin with `./`. -/
def IsPlain (name : String) : Prop := '\\' ∉ name.toList ∧ ¬['.', '/'] <+: name.toList

theorem map_slash {written cs : List Char} (h : '\\' ∉ cs)
    (hspelled : List.Forall₂ (fun written c => written = c ∨ written = '\\' ∧ c = '/') written cs) :
    (written.map fun c => if c = '\\' then '/' else c) = cs := by
  induction hspelled with
  | nil => rfl
  | cons hfirst _ ih =>
    rw [List.mem_cons, not_or] at h
    obtain ⟨hne, hrest⟩ := h
    rw [List.map_cons, ih hrest]
    rcases hfirst with rfl | ⟨rfl, rfl⟩
    · rw [if_neg (Ne.symm hne)]
    · rfl

theorem dropHere_replicate (n : Nat) {cs : List Char} (h : ¬['.', '/'] <+: cs) :
    dropHere ((List.replicate n ['.', '/']).flatten ++ cs) = cs := by
  induction n with
  | zero =>
    rw [List.replicate_zero, List.flatten_nil, List.nil_append, dropHere]
    intro rest hrest
    exact h ⟨rest, hrest.symm⟩
  | succ n ih => exact ih

theorem Spells.normalized {path name : String} (h : Spells path name) (hname : IsPlain name) :
    normalized path = name := by
  obtain ⟨n, hspelled⟩ := h
  have hslashes : '\\' ∉ (List.replicate n ['.', '/']).flatten ++ name.toList := by
    intro hmem
    rcases List.mem_append.mp hmem with hmem | hmem
    · obtain ⟨here, hhere, hmem⟩ := List.mem_flatten.mp hmem
      rw [(List.mem_replicate.mp hhere).2] at hmem
      exact absurd hmem (by decide)
    · exact hname.1 hmem
  rw [Loader.normalized, map_slash hslashes hspelled, dropHere_replicate n hname.2, String.ofList_toList]

/-! ### Loads from memory -/

section
variable {contents : List (String × String)} {paths : List String} {disk : Disk} {path name : String}
  (hname : IsPlain name) (hclosed : SelfContained contents name) (hpath : Spells path name)
include hname hclosed hpath

theorem request_inMemory : Compilation.request ⟨paths, contents⟩ disk {} path =
    (Compilation.add ⟨paths, contents⟩ disk (nameBound ⟨paths, contents⟩ disk + 1) [] {} name).map
      fun c => { c with requested := c.requested ++ [name] } := by
  obtain ⟨source, hsource⟩ := hclosed.exists_source
  have hrequest : request? ⟨paths, contents⟩ path = some ⟨name, true⟩ := by
    simp only [request?, hpath.normalized hname, hsource, Option.isSome_some, if_true]
  simp only [Compilation.request, hrequest]
  cases hadd : Compilation.add ⟨paths, contents⟩ disk (nameBound ⟨paths, contents⟩ disk + 1) [] {} name with
  | error obstacle => rfl
  | ok c =>
    have hplaces := add_places hclosed (fun p hp => by cases hp) hadd
    -- No file has a place on disk, so none can be at another place than the path.
    have hhere : ∀ place, c.loaded.lookup name ≠ some (some place) := by
      intro place hlookup
      cases hplaces _ (mem_of_lookup hlookup)
    simp only [bind, Except.bind, Bool.and_false, Bool.false_eq_true, if_false]
    rfl

/-- What the plan of a load comes to if the file and its imports are in memory. -/
theorem planFiles_inMemory : planFiles ⟨paths, contents⟩ disk [path] =
    match Compilation.add ⟨paths, contents⟩ disk (nameBound ⟨paths, contents⟩ disk + 1) [] {} name with
    | .error obstacle => .error (.unparsable path obstacle.text)
    | .ok c => match ({} : Pool).link? c.pool.settled with
      | none => .error (.unlinkable "the compiled files do not fit together")
      | some pool =>
        .ok (pool, Compilation.requestedNames { c with requested := c.requested ++ [name] }) := by
  simp only [planFiles, compile, request_inMemory hname hclosed hpath]
  cases Compilation.add ⟨paths, contents⟩ disk (nameBound ⟨paths, contents⟩ disk + 1) [] {} name with
  | error obstacle => rfl
  | ok c => rfl

end

/-- A file in memory whose imports are in memory loads in one way: neither the disk nor the import paths
nor the spelling of its path have an effect on what is stored, on how many files are or on why none is. -/
theorem parseFile_inMemory (contents : List (String × String)) (name : String) (hname : IsPlain name)
    (hclosed : SelfContained contents name) (paths₁ paths₂ : List String) (disk₁ disk₂ : Disk)
    (path₁ path₂ : String) (hpath₁ : Spells path₁ name) (hpath₂ : Spells path₂ name) :
    (parseFile ⟨paths₁, contents⟩ disk₁ path₁).outcome.mapError Failure.kind =
        (parseFile ⟨paths₂, contents⟩ disk₂ path₂).outcome.mapError Failure.kind ∧
      ∀ r, (parseFile ⟨paths₁, contents⟩ disk₁ path₁).run r =
        (parseFile ⟨paths₂, contents⟩ disk₂ path₂).run r := by
  have hbound (paths : List String) (disk : Disk) :
      contents.length < nameBound ⟨paths, contents⟩ disk + 1 + ([] : List String).length := by
    unfold nameBound
    dsimp only [List.length_nil]
    omega
  have hadd : Compilation.add ⟨paths₁, contents⟩ disk₁ (nameBound ⟨paths₁, contents⟩ disk₁ + 1) [] {} name =
      Compilation.add ⟨paths₂, contents⟩ disk₂ (nameBound ⟨paths₂, contents⟩ disk₂ + 1) [] {} name :=
    add_inMemory hclosed List.nodup_nil nofun (hbound paths₁ disk₁) (hbound paths₂ disk₂)
  have hplan₁ : planFiles ⟨paths₁, contents⟩ disk₁ [path₁] = _ :=
    planFiles_inMemory hname hclosed hpath₁
  have hplan₂ : planFiles ⟨paths₂, contents⟩ disk₂ [path₂] = _ :=
    planFiles_inMemory hname hclosed hpath₂
  obtain ⟨hstores₁, houtcome₁⟩ := parseFiles_carriesOut ⟨paths₁, contents⟩ disk₁ [path₁]
  obtain ⟨hstores₂, houtcome₂⟩ := parseFiles_carriesOut ⟨paths₂, contents⟩ disk₂ [path₂]
  rw [← hadd] at hplan₂
  unfold parseFile Load.run
  rw [hstores₁, houtcome₁, hstores₂, houtcome₂, hplan₁, hplan₂]
  cases Compilation.add ⟨paths₁, contents⟩ disk₁ (nameBound ⟨paths₁, contents⟩ disk₁ + 1) [] {} name with
  | error obstacle => exact ⟨rfl, fun _ => rfl⟩
  | ok c => exact ⟨rfl, fun _ => rfl⟩

/-- Two sources in memory of which one imports the other. -/
def overlaid : List (String × String) :=
  [("a/b.proto", "import \"c.proto\"; message A \x7b optional C c = 1; \x7d"), ("c.proto", "message C \x7b\x7d")]

/-- A disk with other files of the same names. -/
def overlaidDisk : Disk :=
  .ofNodes ["home"] [("a/b.proto", .file (Wire.textBytes "message B \x7b\x7d")), ("c.proto", .directory)]

theorem parseFile_inMemory_overlaid : IsPlain "a/b.proto" ∧ SelfContained overlaid "a/b.proto" ∧
    Spells "././a/b.proto" "a/b.proto" ∧ Spells ".\\a\\b.proto" "a/b.proto" ∧
    (parseFile ⟨["."], overlaid⟩ overlaidDisk "././a/b.proto").outcome.mapError Failure.kind =
        (parseFile ⟨[], overlaid⟩ {} ".\\a\\b.proto").outcome.mapError Failure.kind ∧
      ∀ r, (parseFile ⟨["."], overlaid⟩ overlaidDisk "././a/b.proto").run r =
        (parseFile ⟨[], overlaid⟩ {} ".\\a\\b.proto").run r := by
  have hname : IsPlain "a/b.proto" := by
    unfold IsPlain
    decide
  have hnames : ∀ name ∈ ["a/b.proto", "c.proto"], name ∈ overlaid.map (·.1) := by decide
  have himports : ∀ name ∈ ["a/b.proto", "c.proto"], ∀ other ∈ importsInMemory overlaid name,
      other ∈ ["a/b.proto", "c.proto"] := by decide +kernel
  have hclosed : SelfContained overlaid "a/b.proto" :=
    selfContained_of_closed hnames himports List.mem_cons_self
  have hpath₁ : Spells "././a/b.proto" "a/b.proto" := ⟨2, by decide⟩
  have hpath₂ : Spells ".\\a\\b.proto" "a/b.proto" := ⟨1, by decide⟩
  exact ⟨hname, hclosed, hpath₁, hpath₂, parseFile_inMemory overlaid "a/b.proto" hname hclosed ["."] []
    overlaidDisk {} _ _ hpath₁ hpath₂⟩

end Loader
end SchemaTree
