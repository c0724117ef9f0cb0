import SchemaTree.Proofs.Loader.Effect
import SchemaTree.Proofs.Pool.Bare

/-!
# Where stored files come from

Each file that a load stores is the snapshot of a linked file. That file is linked from a compiled one, and
the compiled one comes from the declared file of its name: it is this file if it was read from a descriptor
set, and it is what compiling makes of it if it was read from a source.
-/

namespace SchemaTree.Loader
open Descriptor (File)

/-! ### Compiled files -/

/-- The files that a call links when it stores: those of a descriptor set, or those that sources compile
to. -/
def Call.compiled : Call → List File
  | .file config disk path => compiledSet config disk [path]
  | .files config disk paths => compiledSet config disk paths
  | .set bytes => (Descriptor.readSet? bytes).getD []
  | .setFile disk path =>
    match disk.read path with
    | .ok bytes => (Descriptor.readSet? bytes).getD []
    | .error _ => []

/-- One file after its references were resolved and its options were interpreted. -/
def CompilesTo (d c : File) : Prop :=
  ∃ (view : Pool.View) (env : Options.Environment) (e : File),
    Pool.resolveFile? view d = some e ∧ env.settleFile? e = some c

/-- What a call makes of a declared file before it is linked. -/
def Call.Compiles : Call → File → File → Prop
  | .file .. | .files .. => CompilesTo
  | .set _ | .setFile .. => (· = ·)

theorem CompilesTo.name_eq {d c : File} (h : CompilesTo d c) : c.name = d.name := by
  obtain ⟨_, _, e, hde, hec⟩ := h
  rw [(Options.Environment.settleFile?_same hec).1, Pool.resolveFile?_name hde]

theorem Call.Compiles.bare {call : Call} {d c : File} (h : call.Compiles d c) : c.bare = d.bare := by
  have hsource (h : CompilesTo d c) : c.bare = d.bare := by
    obtain ⟨_, _, _, hde, hec⟩ := h
    rw [Options.Environment.settleFile?_bare hec, Pool.resolveFile?_bare hde]
  cases call with
  | file _ _ _ => exact hsource h
  | files _ _ _ => exact hsource h
  | set _ => rw [show d = c from h]
  | setFile _ _ => rw [show d = c from h]

theorem Call.compiled_setFile {disk : Disk} {path : String} {bytes : Bytes}
    (h : disk.read path = .ok bytes) :
    Call.compiled (.setFile disk path) = (Descriptor.readSet? bytes).getD [] := by
  rw [Call.compiled, h]

theorem planSet_links {bytes : Bytes} {pool : Pool} {names : List String}
    (h : planSet bytes = .ok (pool, names)) :
    ({} : Pool).link? ((Descriptor.readSet? bytes).getD []) = some pool := by
  unfold planSet at h
  split at h
  · cases h
  · rename_i files hfiles
    split at h
    · cases h
    · rename_i linked hlink
      cases h
      rw [hfiles]
      exact hlink

/-- The planned pool is linked from the compiled files. -/
theorem Call.plan_links {call : Call} {pool : Pool} {names : List String}
    (h : call.plan = .ok (pool, names)) : ({} : Pool).link? call.compiled = some pool := by
  cases call with
  | file config disk path => exact planFiles_links h
  | files config disk paths => exact planFiles_links h
  | set bytes => exact planSet_links h
  | setFile disk path =>
    rw [Call.plan, planSetFile] at h
    split at h
    · cases h
    · rename_i bytes hread
      rw [Call.compiled_setFile hread]
      exact planSet_links h

/-! ### Declared files -/

/-- Files that come by some change from the declared files of their names. -/
def ComeFrom (declared : String → Option File) (R : File → File → Prop) (files : List File) : Prop :=
  ∀ c ∈ files, ∃ d, declared c.name = some d ∧ R d c

theorem comeFrom_keptByJoining (config : Config) (disk : Disk) : KeptByJoining config disk
    fun pool => ComeFrom (declared? config disk) CompilesTo pool.settled := by
  intro pool linked d hd hlink h
  obtain ⟨resolved, settled, hj⟩ := Pool.link?_joined hlink
  intro c hc
  rw [hj.settledFiles] at hc
  rcases List.mem_append.mp hc with hc | hc
  · exact h c hc
  · obtain ⟨e, he, env, _, _, hec⟩ := exists_of_forall₂_right hj.settles hc
    obtain ⟨d', hd', view, _, hde⟩ := exists_of_forall₂_right hj.resolves he
    cases List.mem_singleton.mp hd'
    have hcompiles : CompilesTo d c := ⟨view, env, e, hde, hec⟩
    exact ⟨d, by rw [hcompiles.name_eq, hd], hcompiles⟩

theorem compiledSet_comesFrom (config : Config) (disk : Disk) (paths : List String) :
    ComeFrom (declared? config disk) CompilesTo (compiledSet config disk paths) := by
  unfold compiledSet
  split
  · rename_i c hc
    exact compile_keeps (comeFrom_keptByJoining config disk) (fun f hf => by cases hf) hc
  · exact fun f hf => by cases hf

theorem readSet?_comesFrom {bytes : Bytes} {pool : Pool}
    (hlink : ({} : Pool).link? ((Descriptor.readSet? bytes).getD []) = some pool) :
    ComeFrom (setFile? bytes) (· = ·) ((Descriptor.readSet? bytes).getD []) := by
  intro f hf
  refine ⟨f, ?_, rfl⟩
  cases hfiles : Descriptor.readSet? bytes with
  | none =>
    rw [hfiles] at hf
    cases hf
  | some files =>
    rw [hfiles] at hf hlink
    rw [setFile?, hfiles, Option.bind_some]
    exact find?_of_nodup (Pool.link?_nodup hlink) hf

theorem Call.compiled_comesFrom {call : Call} {pool : Pool} {names : List String}
    (h : call.plan = .ok (pool, names)) : ComeFrom call.declared? call.Compiles call.compiled := by
  have hlink := call.plan_links h
  cases call with
  | file config disk path => exact compiledSet_comesFrom config disk [path]
  | files config disk paths => exact compiledSet_comesFrom config disk paths
  | set bytes => exact readSet?_comesFrom hlink
  | setFile disk path =>
    rw [Call.plan, planSetFile] at h
    split at h
    · cases h
    · rename_i bytes hread
      have hsame : Call.declared? (.setFile disk path) = setFile? bytes := by
        funext name
        rw [Call.declared?, setFileOnDisk?, hread]
      rw [Call.compiled_setFile hread] at hlink ⊢
      rw [hsame]
      exact readSet?_comesFrom hlink

/-- Files that are, but for references and options, the declared ones of their names. -/
def AsDeclared (declared : String → Option File) (files : List File) : Prop :=
  ∀ f ∈ files, ∃ d, declared f.name = some d ∧ f.bare = d.bare

theorem Call.plan_asDeclared {call : Call} {pool : Pool} {names : List String}
    (h : call.plan = .ok (pool, names)) : AsDeclared call.declared? pool.files := by
  intro f hf
  have hbare := Pool.link?_bare (call.plan_links h)
  obtain ⟨c, hc, hfc⟩ := exists_of_forall₂_right (forall₂_of_map_eq hbare) hf
  obtain ⟨d, hd, hcompiles⟩ := call.compiled_comesFrom h c hc
  exact ⟨d, by rw [(Descriptor.File.same_of_bare hfc).1, hd], hfc.trans hcompiles.bare⟩

/-! ### Stored files -/

/-- What is known of a file that a call has stored under a name: the linked file `linked` that it is the
snapshot of, and the file `d` declared under the name. -/
structure StoredFrom (call : Call) (pool : Pool) (name : String) (linked d : File)
    (file : Schema.File) : Prop where
  linking : ∃ new, ({} : Pool).link? new = some pool
  mem : linked ∈ pool.files
  name_eq : linked.name = name
  snapshot : Snapshot.file pool.declarations linked = .ok file
  declares : call.declared? name = some d
  bare : linked.bare = d.bare
  others : AsDeclared call.declared? pool.files

/-- A stored file is the snapshot of a file of the planned pool. -/
theorem Call.stored_plan {call : Call} {name : String} {file : Schema.File}
    (h : (name, file) ∈ call.load.stores) : ∃ pool names f, call.plan = .ok (pool, names) ∧
      f ∈ pool.files ∧ f.name = name ∧ Snapshot.file pool.declarations f = .ok file := by
  rw [call.load_carriesOut.1] at h
  cases hplan : call.plan with
  | error failure =>
    rw [hplan] at h
    cases h
  | ok planned =>
    obtain ⟨pool, names⟩ := planned
    rw [hplan] at h
    obtain ⟨f, hfile, hsnapshot⟩ := mem_stores h
    exact ⟨pool, names, f, rfl, List.mem_of_find?_eq_some hfile,
      by simpa using List.find?_some hfile, hsnapshot⟩

theorem Call.stored_from {call : Call} {name : String} {file : Schema.File}
    (h : (name, file) ∈ call.load.stores) :
    ∃ pool linked d, StoredFrom call pool name linked d file := by
  obtain ⟨pool, names, f, hplan, hf, hname, hsnapshot⟩ := call.stored_plan h
  obtain ⟨d, hd, hbare⟩ := call.plan_asDeclared hplan f hf
  exact ⟨pool, f, d, ⟨_, call.plan_links hplan⟩, hf, hname, hsnapshot, by rw [← hname, hd], hbare,
    call.plan_asDeclared hplan⟩

end SchemaTree.Loader
