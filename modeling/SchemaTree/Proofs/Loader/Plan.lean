import SchemaTree.Proofs.Loader.Compilation
import SchemaTree.Proofs.Loader.Stores

/-!
# The plan of a load

Before any file is stored, a load prepares a linked pool and the names of the files to store, or it
fails. The files of the pool have the fields that their sources declare.
-/

namespace SchemaTree.Loader

/-! ### Ways to load -/

/-- An attempt to load files, in one of the four ways there are. -/
inductive Call
  | file (config : Config) (disk : Disk) (path : String)
  | files (config : Config) (disk : Disk) (paths : List String)
  | set (bytes : Bytes)
  | setFile (disk : Disk) (path : String)

def planFiles (config : Config) (disk : Disk) (paths : List String) :
    Except Failure (Pool × List String) :=
  match (compile config disk {} paths).2 with
  | .error failure => .error failure
  | .ok c =>
    match ({} : Pool).link? c.pool.settled with
    | none => .error (.unlinkable "the compiled files do not fit together")
    | some pool => .ok (pool, c.requestedNames)

/-- The files that paths compile to, in the order of their compilation, with all they import. -/
def compiledSet (config : Config) (disk : Disk) (paths : List String) : List Descriptor.File :=
  match (compile config disk {} paths).2 with
  | .ok c => c.pool.settled
  | .error _ => []

def planSet (bytes : Bytes) : Except Failure (Pool × List String) :=
  match Descriptor.readSet? bytes with
  | none => .error (.undecodable "the bytes are no descriptor set")
  | some files =>
    match ({} : Pool).link? files with
    | none => .error (.unlinkable "the files do not fit together")
    | some pool => .ok (pool, files.map (·.name))

def planSetFile (disk : Disk) (path : String) : Except Failure (Pool × List String) :=
  match disk.read path with
  | .error fault => .error (.unreadable path fault.text)
  | .ok bytes => planSet bytes

def setFile? (bytes : Bytes) (name : String) : Option Descriptor.File :=
  (Descriptor.readSet? bytes).bind fun files => files.find? (·.name = name)

def setFileOnDisk? (disk : Disk) (path name : String) : Option Descriptor.File :=
  match disk.read path with
  | .error _ => none
  | .ok bytes => setFile? bytes name

namespace Call

def load : Call → Load
  | file config disk path => parseFile config disk path
  | files config disk paths => parseFiles config disk paths
  | set bytes => loadSet bytes
  | setFile disk path => loadSetFile disk path

/-- The linked pool of a call and the names of the files it stores, in their order. -/
def plan : Call → Except Failure (Pool × List String)
  | file config disk path => planFiles config disk [path]
  | files config disk paths => planFiles config disk paths
  | set bytes => planSet bytes
  | setFile disk path => planSetFile disk path

/-- The file of a name as it is declared, in a source or in a descriptor set. -/
def declared? : Call → String → Option Descriptor.File
  | file config disk _ => Loader.declared? config disk
  | files config disk _ => Loader.declared? config disk
  | set bytes => setFile? bytes
  | setFile disk path => setFileOnDisk? disk path

/-- The names of the files that a call is to store, in their order. -/
def fileOrder (call : Call) : List String :=
  match call.plan with
  | .ok (_, names) => names
  | .error _ => []

end Call

/-! ### Plans -/

/-- Failures that occur before any file is taken up. -/
inductive Early : Failure → Prop
  | unreadable (path reason : String) : Early (.unreadable path reason)
  | unparsable (path reason : String) : Early (.unparsable path reason)
  | undecodable (reason : String) : Early (.undecodable reason)
  | unlinkable (reason : String) : Early (.unlinkable reason)

/-- A plan that can be carried out: the pool is linked, it holds a file under each of the distinct
names, and the fields of its files are those that are declared. -/
structure Sensible (declared : String → Option Descriptor.File) (pool : Pool) (names : List String) :
    Prop where
  linked : ∃ new, ({} : Pool).link? new = some pool
  nodup : names.Nodup
  present : ∀ name ∈ names, name ∈ pool.files.map (·.name)
  sources : ∀ f ∈ pool.files, ∃ d, declared f.name = some d ∧ f.layout = d.layout

/-- A plan is either sensible or an early failure. -/
def Prepared (declared : String → Option Descriptor.File) :
    Except Failure (Pool × List String) → Prop
  | .ok (pool, names) => Sensible declared pool names
  | .error failure => Early failure

theorem find?_of_nodup {files : List Descriptor.File} (hnodup : (files.map (·.name)).Nodup)
    {f : Descriptor.File} (hf : f ∈ files) : files.find? (·.name = f.name) = some f := by
  induction files with
  | nil => cases hf
  | cons g files ih =>
    obtain ⟨hg, hrest⟩ := List.nodup_cons.mp hnodup
    rcases List.mem_cons.mp hf with rfl | hf
    · rw [List.find?_cons_of_pos (by simp)]
    · have hne : ¬g.name = f.name := fun heq =>
        hg (List.mem_map.mpr ⟨f, hf, heq.symm⟩)
      rw [List.find?_cons_of_neg (by simpa using hne)]
      exact ih hrest hf

/-- A descriptor set that fits together is a plan for all its files. -/
theorem sensible_of_set {bytes : Bytes} {files : List Descriptor.File} {pool : Pool}
    (hfiles : Descriptor.readSet? bytes = some files) (hlink : ({} : Pool).link? files = some pool) :
    Sensible (setFile? bytes) pool (files.map (·.name)) := by
  have hnodup := Pool.link?_nodup hlink
  refine ⟨⟨files, hlink⟩, hnodup, ?_, ?_⟩
  · intro name hname
    rwa [Pool.link?_names hlink]
  · intro f hf
    obtain ⟨d, hd, hname, hlayout⟩ := Pool.link?_source hlink hf
    refine ⟨d, ?_, hlayout⟩
    rw [setFile?, hfiles, Option.bind_some, hname]
    exact find?_of_nodup hnodup hd

theorem planSet_prepared (bytes : Bytes) : Prepared (setFile? bytes) (planSet bytes) := by
  unfold planSet
  split
  · exact .undecodable _
  · rename_i files hfiles
    split
    · exact .unlinkable _
    · rename_i pool hlink
      exact sensible_of_set hfiles hlink

theorem planFiles_prepared (config : Config) (disk : Disk) (paths : List String) :
    Prepared (declared? config disk) (planFiles config disk paths) := by
  unfold planFiles
  split
  · rename_i failure hfailure
    obtain ⟨path, _, reason, rfl⟩ := compile_failure hfailure
    exact .unparsable path reason
  · rename_i c hc
    have hsound := compile_sound (Compilation.sound_empty config disk) hc
    split
    · exact .unlinkable _
    · rename_i pool hlink
      -- Linking keeps the names, so those of the compilation are distinct as well.
      have hnames : pool.files.map (·.name) = c.pool.files.map (·.name) := by
        rw [Pool.link?_names hlink, hsound.names]
      have hnodup : (c.pool.files.map (·.name)).Nodup := by
        rw [← hsound.names]
        exact Pool.link?_nodup hlink
      refine ⟨⟨_, hlink⟩, hnodup.filter _, ?_, ?_⟩
      · intro name hname
        rw [hnames]
        exact List.mem_of_mem_filter hname
      · intro f hf
        obtain ⟨g, hg, hname, hlayout⟩ := Pool.link?_source hlink hf
        obtain ⟨d, hd, hsame⟩ := hsound.sources g hg
        exact ⟨d, by rw [hname, hd], by rw [hlayout, hsame]⟩

/-- A source in memory that imports nothing is planned by itself. -/
theorem planFiles_alone {config : Config} {disk : Disk} {path name source : String} {isExact : Bool}
    {d : Descriptor.File} {compiled pool : Pool} (hrequest : request? config path = some ⟨name, isExact⟩)
    (hsource : config.contents.lookup name = some source) (hread : Source.read? name source = some d)
    (himports : d.imports = []) (hcompiled : ({} : Pool).link? [d] = some compiled)
    (hlink : ({} : Pool).link? compiled.settled = some pool) :
    planFiles config disk [path] = .ok (pool, [name]) := by
  have hnames : compiled.files.map (·.name) = [name] := by
    rw [Pool.link?_names hcompiled, List.map_singleton, Source.read?_name hread]
  rw [planFiles, compile_alone hrequest hsource hread himports hcompiled]
  simp only [hlink, Compilation.requestedNames, hnames, List.filter_cons, List.contains_cons,
    beq_self_eq_true, Bool.true_or, if_true, List.filter_nil]

theorem planSetFile_prepared (disk : Disk) (path : String) :
    Prepared (setFileOnDisk? disk path) (planSetFile disk path) := by
  cases hread : disk.read path with
  | error fault =>
    rw [planSetFile, hread]
    exact Early.unreadable _ _
  | ok bytes =>
    have hsame : setFileOnDisk? disk path = setFile? bytes := by
      funext name
      rw [setFileOnDisk?, hread]
    rw [hsame, planSetFile, hread]
    exact planSet_prepared bytes

theorem planFiles_eq {config : Config} {disk : Disk} {paths : List String} {pool : Pool}
    {names : List String} (h : planFiles config disk paths = .ok (pool, names)) :
    ∃ c, (compile config disk {} paths).2 = .ok c ∧ ({} : Pool).link? c.pool.settled = some pool ∧
      names = c.requestedNames := by
  unfold planFiles at h
  split at h
  · cases h
  · rename_i c hc
    split at h
    · cases h
    · rename_i linked hlink
      cases h
      exact ⟨c, hc, hlink, rfl⟩

/-- The pool that sources are planned with is linked from what they compile to. -/
theorem planFiles_links {config : Config} {disk : Disk} {paths : List String} {pool : Pool}
    {names : List String} (h : planFiles config disk paths = .ok (pool, names)) :
    ({} : Pool).link? (compiledSet config disk paths) = some pool := by
  obtain ⟨c, hc, hlink, _⟩ := planFiles_eq h
  rw [compiledSet, hc]
  exact hlink

theorem Call.plan_prepared (call : Call) : Prepared call.declared? call.plan := by
  cases call with
  | file config disk path => exact planFiles_prepared config disk [path]
  | files config disk paths => exact planFiles_prepared config disk paths
  | set bytes => exact planSet_prepared bytes
  | setFile disk path => exact planSetFile_prepared disk path

/-! ### Descriptor sets that fit together -/

theorem loadSet_eq {bytes : Bytes} {files : List Descriptor.File} {pool : Pool}
    (hfiles : Descriptor.readSet? bytes = some files) (hlink : ({} : Pool).link? files = some pool) :
    loadSet bytes = register pool (files.map (·.name)) := by
  rw [loadSet, hfiles]
  dsimp only
  rw [hlink]

theorem loadSet_ok {bytes : Bytes} {n : Nat} (h : (loadSet bytes).outcome = .ok n) :
    ∃ files pool, Descriptor.readSet? bytes = some files ∧ ({} : Pool).link? files = some pool := by
  unfold loadSet at h
  split at h
  · cases h
  · rename_i files hfiles
    split at h
    · cases h
    · rename_i pool hlink
      exact ⟨files, pool, hfiles, hlink⟩

/-! ### Calls as plans that are carried out -/

/-- Two loads that store the same files and have the same outcome. -/
def SameEffect (a b : Load) : Prop := a.stores = b.stores ∧ a.outcome = b.outcome

def carryOut : Except Failure (Pool × List String) → Load
  | .error failure => .failed [] failure
  | .ok (pool, names) => register pool names

theorem sameEffect_after {events : List Load.Event} (h : ∀ e ∈ events, ∃ note, e = .note note)
    (load : Load) : SameEffect (load.after events) load := ⟨Load.stores_after h load, rfl⟩

theorem loadSet_carriesOut (bytes : Bytes) : loadSet bytes = carryOut (planSet bytes) := by
  unfold loadSet planSet
  cases Descriptor.readSet? bytes with
  | none => rfl
  | some files =>
    dsimp only
    cases ({} : Pool).link? files with
    | none => rfl
    | some pool => rfl

theorem loadSetFile_carriesOut (disk : Disk) (path : String) :
    SameEffect (loadSetFile disk path) (carryOut (planSetFile disk path)) := by
  unfold loadSetFile planSetFile
  cases disk.read path with
  | error fault => exact ⟨rfl, rfl⟩
  | ok bytes =>
    dsimp only
    rw [← loadSet_carriesOut]
    refine sameEffect_after ?_ _
    intro e he
    exact ⟨_, List.mem_singleton.mp he⟩

theorem parseFiles_carriesOut (config : Config) (disk : Disk) (paths : List String) :
    SameEffect (parseFiles config disk paths) (carryOut (planFiles config disk paths)) := by
  have hnotes := compile_notes config disk {} paths
  unfold parseFiles planFiles
  cases hcompile : compile config disk {} paths with
  | mk events result =>
    rw [hcompile] at hnotes
    cases result with
    | error failure => exact ⟨Load.stores_failed hnotes failure, rfl⟩
    | ok c =>
      dsimp only
      cases ({} : Pool).link? c.pool.settled with
      | none => exact ⟨Load.stores_failed hnotes _, rfl⟩
      | some pool => exact sameEffect_after hnotes _

theorem Call.load_carriesOut (call : Call) : SameEffect call.load (carryOut call.plan) := by
  cases call with
  | file config disk path => exact parseFiles_carriesOut config disk [path]
  | files config disk paths => exact parseFiles_carriesOut config disk paths
  | set bytes =>
    have h := loadSet_carriesOut bytes
    exact ⟨congrArg Load.stores h, congrArg Load.outcome h⟩
  | setFile disk path => exact loadSetFile_carriesOut disk path

end SchemaTree.Loader
