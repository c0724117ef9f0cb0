import SchemaTree.Loader.Load
import SchemaTree.Proofs.Pool.Link
import SchemaTree.Proofs.Source.File
import SchemaTree.Proofs.Source.Numbers

/-!
# Where compiled files come from

Whatever order the imports are added in, each file of a compilation was read from the source that is
found under its name, and has the messages and fields which that source declares.
-/

namespace SchemaTree.Loader
open Descriptor (File)

/-- What the source found under a name declares. -/
def declared? (config : Config) (disk : Disk) (name : String) : Option File :=
  match openSource config disk name with
  | .ok opened => Source.read? name opened.source
  | .error _ => none

theorem declared?_numbered {config : Config} {disk : Disk} {name : String} {d : File}
    (h : declared? config disk name = some d) : d.Numbered := by
  unfold declared? at h
  split at h
  · exact Source.read?_numbered h
  · cases h

namespace Compilation

/-- The files of a compilation have the fields that their sources declare, and interpreting their
options has kept their names. -/
structure Sound (config : Config) (disk : Disk) (c : Compilation) : Prop where
  names : c.pool.settled.map (·.name) = c.pool.files.map (·.name)
  sources : ∀ f ∈ c.pool.settled, ∃ d, declared? config disk f.name = some d ∧ f.layout = d.layout

theorem sound_empty (config : Config) (disk : Disk) : Sound config disk {} := by
  refine ⟨rfl, ?_⟩
  intro f hf
  cases hf

end Compilation

/-! ### Joining one file after the other -/

variable {config : Config} {disk : Disk}

/-- A property of compilations that is kept whenever a file that was read joins is kept by adding files. -/
theorem add_keeps_of_join {P : Compilation → Prop}
    (hP : ∀ c c' d opened, openSource config disk d.name = .ok opened →
      Source.read? d.name opened.source = some d → c.join d opened.path = .ok c' → P c → P c')
    (fuel : Nat) {importers : List String} {c c' : Compilation} {name : String} (hc : P c)
    (h : Compilation.add config disk fuel importers c name = .ok c') : P c' := by
  induction fuel generalizing importers c c' name with
  | zero => cases h
  | succ fuel ih =>
    unfold Compilation.add at h
    split at h
    · cases h
    · split at h
      · cases h
        exact hc
      · obtain ⟨opened, hopened, h⟩ := bind_eq_ok h
        cases hread : Source.read? name opened.source with
        | none =>
          rw [hread] at h
          cases h
        | some d =>
          rw [hread] at h
          obtain ⟨c₁, himports, hjoin⟩ := bind_eq_ok h
          have hc₁ : P c₁ := foldlM_keeps himports hc fun _ _ _ hc hadd => ih hc hadd
          cases Source.read?_name hread
          exact hP c₁ c' d opened hopened hread hjoin hc₁

theorem Compilation.join_eq {c c' : Compilation} {d : File} {path : Option String}
    (h : c.join d path = .ok c') : ∃ pool, c.pool.link? [d] = some pool ∧
      c' = { c with pool, loaded := c.loaded ++ [(d.name, path)] } := by
  unfold Compilation.join at h
  split at h
  · rename_i pool hlink
    cases h
    exact ⟨pool, hlink, rfl⟩
  · cases h

/-- Adding files is no request for them. -/
theorem add_requested {fuel : Nat} {importers : List String} {c c' : Compilation} {name : String}
    (h : Compilation.add config disk fuel importers c name = .ok c') : c'.requested = c.requested := by
  refine add_keeps_of_join (P := fun c' => c'.requested = c.requested) ?_ fuel rfl h
  intro c₁ c₂ d opened _ _ hjoin hc₁
  obtain ⟨pool, _, rfl⟩ := Compilation.join_eq hjoin
  exact hc₁

/-- Whether a property of pools is kept whenever a declared file joins. -/
def KeptByJoining (config : Config) (disk : Disk) (P : Pool → Prop) : Prop :=
  ∀ pool linked d, declared? config disk d.name = some d → pool.link? [d] = some linked →
    P pool → P linked

variable {P : Pool → Prop}

theorem add_keeps (hP : KeptByJoining config disk P) (fuel : Nat) {importers : List String}
    {c c' : Compilation} {name : String} (hc : P c.pool)
    (h : Compilation.add config disk fuel importers c name = .ok c') : P c'.pool := by
  refine add_keeps_of_join (P := fun c => P c.pool) ?_ fuel hc h
  intro c c' d opened hopened hread hjoin hc
  obtain ⟨pool, hlink, rfl⟩ := Compilation.join_eq hjoin
  have hd : declared? config disk d.name = some d := by simp only [declared?, hopened, hread]
  exact hP _ _ d hd hlink hc

theorem Compilation.request_eq {c c' : Compilation} {path : String}
    (h : c.request config disk path = .ok c') : ∃ name isExact c₁,
      request? config path = some ⟨name, isExact⟩ ∧
      add config disk (nameBound config disk + 1) [] c name = .ok c₁ ∧
      c' = { c₁ with requested := c₁.requested ++ [name] } := by
  unfold Compilation.request at h
  split at h
  · cases h
  · rename_i name isExact hrequest
    obtain ⟨c₁, hadd, h⟩ := bind_eq_ok h
    exact ⟨name, isExact, c₁, hrequest, hadd, eq_of_guard h⟩

theorem request_keeps (hP : KeptByJoining config disk P) {c c' : Compilation} {path : String}
    (hc : P c.pool) (h : c.request config disk path = .ok c') : P c'.pool := by
  obtain ⟨name, _, c₁, _, hadd, rfl⟩ := Compilation.request_eq h
  have hc₁ : P c₁.pool := add_keeps hP _ hc hadd
  exact hc₁

theorem compile_keeps (hP : KeptByJoining config disk P) {c c' : Compilation} {paths : List String}
    (hc : P c.pool) (h : (compile config disk c paths).2 = .ok c') : P c'.pool := by
  induction paths generalizing c with
  | nil =>
    cases h
    exact hc
  | cons path paths ih =>
    simp only [compile] at h
    split at h
    · cases h
    · rename_i c₁ hrequest
      exact ih (request_keeps hP hc hrequest) h

/-! ### Compiling paths -/

theorem sound_keptByJoining (config : Config) (disk : Disk) :
    KeptByJoining config disk fun pool => Compilation.Sound config disk { pool } := by
  intro pool linked d hd hlink hs
  obtain ⟨resolved, settled, hj⟩ := Pool.link?_joined hlink
  refine ⟨?_, ?_⟩
  · rw [hj.settledFiles, hj.files, List.map_append, List.map_append, hs.names, hj.settled_names,
      hj.resolved_names]
  · intro f hf
    rw [hj.settledFiles] at hf
    rcases List.mem_append.mp hf with hf | hf
    · exact hs.sources f hf
    · obtain ⟨g, hg, hname, hlayout⟩ := hj.settled_source hf
      rw [List.mem_singleton.mp hg] at hname hlayout
      exact ⟨d, by rw [hname, hd], hlayout⟩

theorem compile_sound {c c' : Compilation} {paths : List String} (hs : c.Sound config disk)
    (h : (compile config disk c paths).2 = .ok c') : c'.Sound config disk := by
  have hkept := compile_keeps (sound_keptByJoining config disk) ⟨hs.names, hs.sources⟩ h
  exact ⟨hkept.names, hkept.sources⟩

/-- A compilation has been asked for the names that its paths stand for. -/
theorem compile_requested {c c' : Compilation} {paths : List String}
    (h : (compile config disk c paths).2 = .ok c') {name : String} (hname : name ∈ c'.requested) :
    name ∈ c.requested ∨ ∃ path ∈ paths, ∃ isExact, request? config path = some ⟨name, isExact⟩ := by
  induction paths generalizing c with
  | nil =>
    cases h
    exact .inl hname
  | cons path paths ih =>
    simp only [compile] at h
    split at h
    · cases h
    · rename_i c₁ hc₁
      rcases ih h with hold | ⟨later, hlater, hrequest⟩
      · obtain ⟨requested, isExact, c₂, hrequest, hadd, rfl⟩ := Compilation.request_eq hc₁
        dsimp only at hold
        rw [add_requested hadd] at hold
        rcases List.mem_append.mp hold with hold | hnew
        · exact .inl hold
        · cases List.mem_singleton.mp hnew
          exact .inr ⟨path, List.mem_cons_self, isExact, hrequest⟩
      · exact .inr ⟨later, List.mem_cons_of_mem _ hlater, hrequest⟩

/-- A source in memory that imports nothing compiles to a pool of its own. -/
theorem compile_alone {path name source : String} {d : File} {pool : Pool}
    {isExact : Bool} (hrequest : request? config path = some ⟨name, isExact⟩)
    (hsource : config.contents.lookup name = some source) (hread : Source.read? name source = some d)
    (himports : d.imports = []) (hlink : ({} : Pool).link? [d] = some pool) :
    (compile config disk {} [path]).2 = .ok { pool, loaded := [(name, none)], requested := [name] } := by
  have hname := Source.read?_name hread
  have hjoin : ({} : Compilation).join d none = .ok { pool, loaded := [(name, none)] } := by
    simp only [Compilation.join, hlink, hname]
    rfl
  have hadd : Compilation.add config disk (nameBound config disk + 1) [] {} name =
      .ok { pool, loaded := [(name, none)] } := by
    simp only [Compilation.add, openSource, hsource, bind, Except.bind, hread, himports]
    exact hjoin
  have hdone : Compilation.request config disk {} path =
      .ok { pool, loaded := [(name, none)], requested := [name] } := by
    simp only [Compilation.request, hrequest, hadd, bind, Except.bind, List.lookup_cons, beq_self_eq_true,
      Bool.and_false]
    rfl
  rw [compile, hdone]
  rfl

/-- A failure to compile is one to read or parse a file that was asked for. -/
theorem compile_failure {config : Config} {disk : Disk} {c : Compilation} {paths : List String}
    {failure : Failure} (h : (compile config disk c paths).2 = .error failure) :
    ∃ path ∈ paths, ∃ reason, failure = .unparsable path reason := by
  induction paths generalizing c with
  | nil => cases h
  | cons path paths ih =>
    simp only [compile] at h
    split at h
    · cases h
      exact ⟨path, List.mem_cons_self, _, rfl⟩
    · obtain ⟨p, hp, reason, hreason⟩ := ih h
      exact ⟨p, List.mem_cons_of_mem _ hp, reason, hreason⟩

theorem compile_notes (config : Config) (disk : Disk) (c : Compilation) (paths : List String) :
    ∀ e ∈ (compile config disk c paths).1, ∃ note, e = .note note := by
  induction paths generalizing c with
  | nil =>
    intro e he
    cases he
  | cons path paths ih =>
    intro e he
    simp only [compile] at he
    split at he
    · exact ⟨_, List.mem_singleton.mp he⟩
    · rcases List.mem_cons.mp he with he | he
      · exact ⟨_, he⟩
      · exact ih _ e he

end SchemaTree.Loader
