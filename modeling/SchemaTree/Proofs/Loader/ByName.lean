import SchemaTree.Proofs.Loader.Effect
import SchemaTree.Proofs.Loader.Memory
import SchemaTree.Proofs.Text.Lines

/-!
# Sources in memory that are asked for by name

A source in memory keeps the name that it is given, while a path is spelled anew before a source is looked
up under it. The names that stay as they are are the plain ones. Another name may still be found as the path
that it is, but no path stands for a name that begins with `./`.
-/

namespace SchemaTree.Loader

/-! ### The name of a path in memory -/

/-- The name of the source in memory that a path stands for. -/
def memoryName? (contents : List (String × String)) (path : String) : Option String :=
  if (contents.lookup (normalized path)).isSome then some (normalized path) else none

/-- Memory comes first, then the import paths, and last the path itself. -/
theorem request?_eq (config : Config) (path : String) : request? config path =
    (((memoryName? config.contents path).map (⟨·, true⟩)).or
      ((relativeName? config.importPaths path).map (⟨·, true⟩))).or
        ((Path.ofText path).plainName?.map (⟨·, false⟩)) := by
  unfold request? memoryName?
  split
  · rfl
  · cases relativeName? config.importPaths path <;> rfl

theorem dropHere_suffix (cs : List Char) : dropHere cs <:+ cs := by
  fun_induction dropHere cs with
  | case1 cs ih => exact ih.trans ((List.suffix_cons _ _).trans (List.suffix_cons _ _))
  | case2 cs => exact List.suffix_refl cs

theorem not_here_dropHere (cs : List Char) : ¬['.', '/'] <+: dropHere cs := by
  fun_induction dropHere cs with
  | case1 cs ih => exact ih
  | case2 cs hcs =>
    rintro ⟨rest, hrest⟩
    exact hcs rest hrest.symm

theorem isPlain_normalized (path : String) : IsPlain (normalized path) := by
  unfold IsPlain normalized
  rw [String.toList_ofList]
  refine ⟨?_, not_here_dropHere _⟩
  intro hmem
  obtain ⟨c, -, hc⟩ := List.mem_map.mp ((dropHere_suffix _).subset hmem)
  split at hc
  · cases hc
  · contradiction

theorem IsPlain.normalized {name : String} (h : IsPlain name) : normalized name = name := by
  refine Spells.normalized ⟨0, ?_⟩ h
  exact List.forall₂_same.mpr fun c _ => .inl rfl

/-- The plain names are those that stay as they are. -/
theorem normalized_eq_self {name : String} : normalized name = name ↔ IsPlain name :=
  ⟨fun h => h ▸ isPlain_normalized name, IsPlain.normalized⟩

theorem memoryName?_self {contents : List (String × String)} {name source : String}
    (hsource : contents.lookup name = some source) :
    memoryName? contents name = some name ↔ IsPlain name := by
  rw [← normalized_eq_self]
  unfold memoryName?
  constructor
  · intro h
    split at h
    · exact Option.some.inj h
    · cases h
  · intro h
    rw [h, hsource]
    rfl

/-! ### Requested names -/

/-- Components between slashes, none of which is `.`, do not begin with `./` together. -/
theorem not_here_intercalate {parts : List String} (hslash : ∀ part ∈ parts, '/' ∉ part.toList)
    (hhere : "." ∉ parts) : ¬['.', '/'] <+: ("/".intercalate parts).toList := by
  cases hparts : parts with
  | nil => decide
  | cons first rest =>
    rw [← hparts]
    rintro ⟨after, hafter⟩
    -- The components are the parts between the slashes, so the first one would be a dot.
    have hsplit : ("/".intercalate parts).toList.splitOn '/' = parts.map String.toList := by
      rw [String.toList_intercalate]
      refine List.splitOn_intercalate '/' ?_ (by simp [hparts])
      simpa using hslash
    have hdot : ['.'] ∈ parts.map String.toList := by
      rw [← hsplit, ← hafter]
      change ['.'] ∈ (['.'] ++ '/' :: after).splitOn '/'
      rw [List.splitOn_append_cons_self_of_not_mem (by decide)]
      exact List.mem_cons_self
    obtain ⟨part, hpart, htext⟩ := List.mem_map.mp hdot
    have hpart' : part = "." := String.toList_inj.mp htext
    exact hhere (hpart' ▸ hpart)

theorem ofText_parts {text part : String} (h : part ∈ (Path.ofText text).parts) :
    '/' ∉ part.toList ∧ part ≠ "." := by
  obtain ⟨hmem, hpart⟩ := List.mem_filter.mp h
  obtain ⟨cs, hcs, rfl⟩ := List.mem_map.mp hmem
  rw [String.toList_ofList]
  exact ⟨Text.not_mem_part hcs, by simpa using (Bool.and_eq_true_iff.mp hpart).2⟩

theorem not_here_plainName? {path : Path} {name : String}
    (hparts : ∀ part ∈ path.parts, '/' ∉ part.toList ∧ part ≠ ".") (h : path.plainName? = some name) :
    ¬['.', '/'] <+: name.toList := by
  unfold Path.plainName? at h
  split at h
  · cases h
  · cases h
    exact not_here_intercalate (fun part hpart => (hparts part hpart).1)
      fun hhere => (hparts "." hhere).2 rfl

theorem after?_parts {path start rest : Path} (h : path.after? start = some rest) :
    rest.parts ⊆ path.parts := by
  unfold Path.after? at h
  split at h
  · split at h
    · cases h
      exact List.drop_subset _ _
    · cases h
  · cases h

/-- No path stands for a name that begins with `./`. -/
theorem not_here_request? {config : Config} {path name : String} {isExact : Bool}
    (h : request? config path = some ⟨name, isExact⟩) : ¬['.', '/'] <+: name.toList := by
  have hparts (part : String) (hpart : part ∈ (Path.ofText path).parts) := ofText_parts hpart
  unfold request? at h
  split at h
  · cases h
    exact (isPlain_normalized path).2
  · split at h
    · rename_i relative hrelative
      cases h
      obtain ⟨directory, -, hname⟩ := List.exists_of_findSome?_eq_some hrelative
      obtain ⟨rest, hrest, hname⟩ := Option.bind_eq_some_iff.mp hname
      exact not_here_plainName? (fun part hpart => hparts part (after?_parts hrest hpart)) hname
    · obtain ⟨plain, hplain, heq⟩ := Option.map_eq_some_iff.mp h
      cases heq
      exact not_here_plainName? hparts hplain

/-- Only files that a path stands for are stored. -/
theorem stored_requested {config : Config} {disk : Disk} {paths : List String} {name : String}
    (h : name ∈ (parseFiles config disk paths).stores.map (·.1)) :
    ∃ path ∈ paths, ∃ isExact, request? config path = some ⟨name, isExact⟩ := by
  obtain ⟨_, _, hexplains⟩ := Call.stores_explained (.files config disk paths)
  have hname : name ∈ Call.fileOrder (.files config disk paths) :=
    (stores_isFirstPart hexplains).subset h
  unfold Call.fileOrder at hname
  split at hname
  · rename_i pool names hplan
    obtain ⟨c, hc, -, rfl⟩ := planFiles_eq hplan
    have hrequested : name ∈ c.requested := by simpa using (List.mem_filter.mp hname).2
    exact (compile_requested hc hrequested).resolve_left List.not_mem_nil
  · cases hname

/-! ### Sources without imports -/

/-- The file that a source amounts to by itself, if it imports nothing. -/
def standalone? (name source : String) : Option Schema.File := do
  let d ← Source.read? name source
  guard (d.imports = [])
  let compiled ← ({} : Pool).link? [d]
  let pool ← ({} : Pool).link? compiled.settled
  let file ← pool.file? name
  (Snapshot.file pool.declarations file).toOption

theorem register_single {pool : Pool} {name : String} {f : Descriptor.File} {snapshot : Schema.File}
    (hfile : pool.file? name = some f) (hsnapshot : Snapshot.file pool.declarations f = .ok snapshot) :
    (register pool [name]).outcome = .ok 1 ∧ (register pool [name]).stores = [(name, snapshot)] := by
  simp only [register, storeFiles, hfile, hsnapshot]
  exact ⟨rfl, Load.stores_notes (convertingNotes f) _ _⟩

theorem standalone?_eq_some {name source : String} {snapshot : Schema.File}
    (h : standalone? name source = some snapshot) : ∃ d compiled pool f,
      Source.read? name source = some d ∧ d.imports = [] ∧ ({} : Pool).link? [d] = some compiled ∧
      ({} : Pool).link? compiled.settled = some pool ∧ pool.file? name = some f ∧
      Snapshot.file pool.declarations f = .ok snapshot := by
  obtain ⟨d, hread, h⟩ := Option.bind_eq_some_iff.mp h
  obtain ⟨_, himports, h⟩ := Option.bind_eq_some_iff.mp h
  obtain ⟨compiled, hcompiled, h⟩ := Option.bind_eq_some_iff.mp h
  obtain ⟨pool, hlink, h⟩ := Option.bind_eq_some_iff.mp h
  obtain ⟨f, hf, h⟩ := Option.bind_eq_some_iff.mp h
  refine ⟨d, compiled, pool, f, hread, ?_, hcompiled, hlink, hf, ?_⟩
  · simpa [guard] using himports
  · cases hsnapshot : Snapshot.file pool.declarations f with
    | error failure =>
      rw [hsnapshot] at h
      cases h
    | ok file =>
      rw [hsnapshot] at h
      cases h
      rfl

/-- A source that amounts to a file is loaded by a path that stands for its name. -/
theorem parseFile_standalone {config : Config} {disk : Disk} {path name source : String} {isExact : Bool}
    {snapshot : Schema.File} (hrequest : request? config path = some ⟨name, isExact⟩)
    (hsource : config.contents.lookup name = some source)
    (hfile : standalone? name source = some snapshot) :
    (parseFile config disk path).outcome = .ok 1 ∧
      (parseFile config disk path).stores = [(name, snapshot)] := by
  obtain ⟨d, compiled, pool, f, hread, himports, hcompiled, hlink, hf, hsnapshot⟩ :=
    standalone?_eq_some hfile
  obtain ⟨hstores, houtcome⟩ := parseFiles_carriesOut config disk [path]
  have hplan : planFiles config disk [path] = .ok (pool, [name]) :=
    planFiles_alone hrequest hsource hread himports hcompiled hlink
  rw [parseFile, houtcome, hstores, hplan]
  exact register_single hf hsnapshot

/-! ### Every name in memory -/

/-- Whether a name that is asked for without import paths stands for itself. -/
def StandsForItself (contents : List (String × String)) (name : String) : Prop :=
  IsPlain name ∨ memoryName? contents name = none ∧ (Path.ofText name).plainName? = some name

theorem standsForItself_iff {contents : List (String × String)} {name source : String}
    (hsource : contents.lookup name = some source) : StandsForItself contents name ↔
      ∃ isExact, request? ⟨[], contents⟩ name = some ⟨name, isExact⟩ := by
  unfold StandsForItself
  rw [← memoryName?_self hsource, request?_eq]
  cases memoryName? contents name with
  | none => simp [relativeName?]
  | some found => simp

/-- The source in memory under a name is the one that the name opens, and as a path the name stays as it is
exactly if it is plain. A source that amounts to a file is stored under its name, when this is asked for
without import paths, exactly if the name stands for itself. No load stores a file under a name that begins
with `./`. -/
theorem contents_byName (contents : List (String × String)) (name source : String)
    (hsource : contents.lookup name = some source) :
    (memoryName? contents name = some name ↔ IsPlain name) ∧
    (∀ paths disk, openSource ⟨paths, contents⟩ disk name = .ok ⟨source, none⟩) ∧
    (∀ disk snapshot, standalone? name source = some snapshot →
      ((parseFile ⟨[], contents⟩ disk name).outcome = .ok 1 ∧
        (∀ r, (parseFile ⟨[], contents⟩ disk name).run r = (r.put name snapshot).2) ↔
          StandsForItself contents name)) ∧
    (['.', '/'] <+: name.toList → ∀ paths disk requested r,
      name ∈ ((parseFiles ⟨paths, contents⟩ disk requested).run r).names → name ∈ r.names) := by
  refine ⟨memoryName?_self hsource, ?_, ?_, ?_⟩
  · intro paths disk
    simp only [openSource, hsource]
  · intro disk snapshot hfile
    rw [standsForItself_iff hsource]
    constructor
    · rintro ⟨-, hrun⟩
      have hput : name ∈ ((parseFile ⟨[], contents⟩ disk name).run ∅).names := by
        rw [hrun ∅, Registry.mem_names]
        exact ⟨snapshot, by rw [Registry.get?_put, if_pos rfl]⟩
      have hnodup := Call.stores_nodup (.file ⟨[], contents⟩ disk name)
      rcases (Load.mem_names_run hnodup ∅).mp hput with hstored | hold
      · obtain ⟨path, hpath, isExact, hrequest⟩ := stored_requested hstored
        cases List.mem_singleton.mp hpath
        exact ⟨isExact, hrequest⟩
      · cases hold
    · rintro ⟨isExact, hrequest⟩
      have hload : (parseFile ⟨[], contents⟩ disk name).outcome = .ok 1 ∧
          (parseFile ⟨[], contents⟩ disk name).stores = [(name, snapshot)] :=
        parseFile_standalone hrequest hsource hfile
      refine ⟨hload.1, fun r => ?_⟩
      rw [Load.run, hload.2]
      rfl
  · intro hhere paths disk requested r hname
    have hnodup := Call.stores_nodup (.files ⟨paths, contents⟩ disk requested)
    refine ((Load.mem_names_run hnodup r).mp hname).resolve_left fun hstored => ?_
    obtain ⟨path, -, isExact, hrequest⟩ := stored_requested hstored
    exact not_here_request? hrequest hhere

/-- Sources of three names: a plain one, one with a backslash, and one that begins with `./`. -/
def spelled : List (String × String) :=
  [("a.proto", "message A \x7b\x7d"), ("b\\c.proto", "message B \x7b\x7d"),
    ("./d.proto", "message D \x7b\x7d")]

/-- The file of a source with one empty message. -/
def singleFile (name message : String) : Schema.File :=
  ⟨name, .proto2, "", [], [⟨message, message, [], [], []⟩], [], []⟩

theorem contents_byName_spelled : spelled.lookup "b\\c.proto" = some "message B \x7b\x7d" ∧
    spelled.lookup "./d.proto" = some "message D \x7b\x7d" ∧
    memoryName? spelled "b\\c.proto" ≠ some "b\\c.proto" ∧
    (parseFile ⟨[], spelled⟩ {} "b\\c.proto").outcome = .ok 1 ∧
    (∀ r, (parseFile ⟨[], spelled⟩ {} "b\\c.proto").run r =
      (r.put "b\\c.proto" (singleFile "b\\c.proto" "B")).2) ∧
    ∀ paths disk requested r,
      "./d.proto" ∈ ((parseFiles ⟨paths, spelled⟩ disk requested).run r).names → "./d.proto" ∈ r.names := by
  have hb : spelled.lookup "b\\c.proto" = some "message B \x7b\x7d" := by decide
  have hd : spelled.lookup "./d.proto" = some "message D \x7b\x7d" := by decide
  have hplain : ¬IsPlain "b\\c.proto" := by
    unfold IsPlain
    decide
  have hitself : StandsForItself spelled "b\\c.proto" := .inr (by decide)
  have hfile : standalone? "b\\c.proto" "message B \x7b\x7d" = some (singleFile "b\\c.proto" "B") := by
    decide +kernel
  obtain ⟨hfound, _, hloads, _⟩ := contents_byName spelled _ _ hb
  obtain ⟨_, _, _, hnever⟩ := contents_byName spelled _ _ hd
  obtain ⟨houtcome, hrun⟩ := (hloads {} _ hfile).mpr hitself
  exact ⟨hb, hd, fun h => hplain (hfound.mp h), houtcome, hrun, hnever (by decide)⟩

/-- A source whose name begins with `./` opens by that name, but the name as a path does not load it. -/
theorem name_unreachable : ¬∀ (contents : List (String × String)) (name source : String),
    contents.lookup name = some source → memoryName? contents name = some name ∧
      (∀ paths disk, openSource ⟨paths, contents⟩ disk name = .ok ⟨source, none⟩) ∧
      ∀ disk snapshot, standalone? name source = some snapshot →
        (parseFile ⟨[], contents⟩ disk name).outcome = .ok 1 ∧
          ∀ r, (parseFile ⟨[], contents⟩ disk name).run r = (r.put name snapshot).2 := by
  intro h
  have hfile : standalone? "./d.proto" "message D \x7b\x7d" = some (singleFile "./d.proto" "D") := by
    decide +kernel
  obtain ⟨-, -, hloads⟩ := h spelled "./d.proto" "message D \x7b\x7d" (by decide)
  have hfails : (parseFile ⟨[], spelled⟩ {} "./d.proto").outcome ≠ .ok 1 := by decide +kernel
  exact hfails (hloads {} _ hfile).1

end SchemaTree.Loader
