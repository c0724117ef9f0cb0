import SchemaTree.Proofs.Descriptor.Equality
import SchemaTree.Proofs.Descriptor.RoundTrip
import SchemaTree.Proofs.Loader.Effect
import SchemaTree.Proofs.Pool.Writable
import SchemaTree.Proofs.Snapshot.Depth

/-!
# Compiled files and their descriptor set load alike

The files that are compiled from sources can be written as a descriptor set. Loading that set comes to the
same as loading the sources, file by file, as long as a reader of descriptor sets follows its messages to
the end.
-/

namespace SchemaTree.Loader
open Descriptor (File Message SizesFit encodeSet nestingBudget placeLimit readSet? setDepth)

/-! ### The compiled set -/

theorem writable_keptByJoining (config : Config) (disk : Disk) :
    KeptByJoining config disk fun pool => ∀ f ∈ pool.settled, f.Writable := by
  intro pool linked d hd hlink h
  obtain ⟨resolved, settled, hj⟩ := Pool.link?_joined hlink
  have hnew : ∀ f ∈ [d], f.Numbered := List.forall_mem_singleton.mpr (declared?_numbered hd)
  rw [hj.settledFiles]
  exact List.forall_mem_append.mpr ⟨h, hj.settled_writable hnew⟩

theorem compiledSet_writable (config : Config) (disk : Disk) (paths : List String) :
    ∀ f ∈ compiledSet config disk paths, f.Writable := by
  unfold compiledSet
  split
  · rename_i c hc
    exact compile_keeps (writable_keptByJoining config disk) (List.forall_mem_nil _) hc
  · exact List.forall_mem_nil _

/-- The compiled set is read as it is written. -/
theorem readSet?_compiledSet {config : Config} {disk : Disk} {paths : List String}
    (hdepth : setDepth (compiledSet config disk paths) ≤ nestingBudget)
    (hsizes : SizesFit (compiledSet config disk paths)) :
    readSet? (encodeSet (compiledSet config disk paths)) = some (compiledSet config disk paths) :=
  Descriptor.readSet?_encodeSet (compiledSet_writable config disk paths) hdepth hsizes

/-! ### Files of one pool -/

/-- Whether the messages of some files are within the limit of snapshots. -/
def WithinLimit (files : List File) : Prop :=
  ∀ f ∈ files, Message.heightOfAll f.messages ≤ Snapshot.limit

theorem withinLimit_of_depth {files : List File} (h : setDepth files ≤ nestingBudget) :
    WithinLimit files := by
  intro f hf
  have hbudget : nestingBudget ≤ Snapshot.limit := by decide
  have hshallow := Descriptor.levelsIn_le.mp h f hf
  have hheight := f.heightOfAll_le_depth
  omega

theorem snapshot_of_within {pool : Pool} {files : List File} (h : ({} : Pool).link? files = some pool)
    (hfiles : WithinLimit files) {f : File} (hf : f ∈ pool.files) :
    ∃ s, Snapshot.file pool.declarations f = .ok s := by
  -- Linking keeps the nesting of messages.
  obtain ⟨g, hg, hbare⟩ := exists_of_forall₂_right (forall₂_of_map_eq (Pool.link?_bare h)) hf
  have hmessages : Message.bareAll f.messages = Message.bareAll g.messages :=
    congrArg File.messages hbare
  have hheight := congrArg Message.heightOfAll hmessages
  rw [Descriptor.heightOfAll_bare, Descriptor.heightOfAll_bare] at hheight
  exact Snapshot.linked_ok h hf (hheight ▸ hfiles g hg)

/-- All files of a linked pool are stored if their messages are within the limit. -/
theorem register_all {pool : Pool} {files : List File} (h : ({} : Pool).link? files = some pool)
    (hfiles : WithinLimit files) (hne : files ≠ []) :
    (register pool (files.map (·.name))).outcome = .ok files.length ∧
      (register pool (files.map (·.name))).stores.map (·.1) = files.map (·.name) := by
  have hnames : (files.map (·.name)).isEmpty = false := by simpa using hne
  obtain ⟨_, hends⟩ := storeFiles_accounts pool (files.map (·.name))
  rw [register, hnames]
  rcases hends with ⟨hok, hstored⟩ | ⟨name, later, failure, _, hstopped, hstored⟩
  · have hlength := congrArg List.length hstored
    rw [List.length_map, List.length_map] at hlength
    rw [hlength] at hok
    exact ⟨hok, hstored⟩
  -- The name of a file of the pool is not missing there, and every file has a snapshot.
  · have hname : name ∈ pool.files.map (·.name) := by
      rw [Pool.link?_names h, hstored]
      exact List.mem_append_right _ List.mem_cons_self
    cases hstopped with
    | missing reason hmissing =>
      obtain ⟨f, hf, hfname⟩ := List.mem_map.mp hname
      have hnone := List.find?_eq_none.mp hmissing f hf
      simp [hfname] at hnone
    | unshown f _ hfile hfailure =>
      obtain ⟨s, hs⟩ := snapshot_of_within h hfiles (List.mem_of_find?_eq_some hfile)
      rw [hs] at hfailure
      cases hfailure

/-! ### Agreement -/

/-- Loading sources that can be loaded stores files of the pool that the compiled set is linked to. -/
theorem parseFiles_registers {config : Config} {disk : Disk} {paths : List String} {n : Nat}
    (h : (parseFiles config disk paths).outcome = .ok n) : ∃ pool names,
      ({} : Pool).link? (compiledSet config disk paths) = some pool ∧
        Sensible (declared? config disk) pool names ∧ names ≠ [] ∧
        (parseFiles config disk paths).stores = (register pool names).stores := by
  have hprepared := planFiles_prepared config disk paths
  obtain ⟨hstores, houtcome⟩ := parseFiles_carriesOut config disk paths
  rw [h] at houtcome
  cases hplan : planFiles config disk paths with
  | error failure =>
    rw [hplan] at houtcome
    cases houtcome
  | ok planned =>
    obtain ⟨pool, names⟩ := planned
    rw [hplan] at hprepared houtcome hstores
    refine ⟨pool, names, planFiles_links hplan, hprepared, ?_, hstores⟩
    rintro rfl
    cases houtcome

/-- A file of a pool that is stored under one list of names is stored under another that has its name. -/
theorem stored_of_stored {pool : Pool} {names others : List String} {s : String × Schema.File}
    (hs : s ∈ (register pool names).stores)
    (hname : s.1 ∈ (register pool others).stores.map (·.1)) : s ∈ (register pool others).stores := by
  obtain ⟨f, hfile, hsnapshot⟩ := mem_stores hs
  obtain ⟨s', hs', hsame⟩ := List.mem_map.mp hname
  obtain ⟨f', hfile', hsnapshot'⟩ := mem_stores hs'
  rw [hsame, hfile] at hfile'
  cases Option.some.inj hfile'
  rw [hsnapshot] at hsnapshot'
  have heq : s' = s := Prod.ext hsame (Except.ok.inj hsnapshot').symm
  exact heq ▸ hs'

/-- Sources that load, written as a descriptor set, load again to the same files under the same names, if
messages embed others no deeper in the set than readers follow them. -/
theorem loadSet_agrees (config : Config) (disk : Disk) (paths : List String) (n : Nat)
    (h : (parseFiles config disk paths).outcome = .ok n)
    (hdepth : setDepth (compiledSet config disk paths) ≤ nestingBudget)
    (hsizes : SizesFit (compiledSet config disk paths)) :
    (loadSet (encodeSet (compiledSet config disk paths))).outcome =
        .ok (compiledSet config disk paths).length ∧
      ∀ s ∈ (parseFiles config disk paths).stores, ∀ r : Registry,
        ((parseFiles config disk paths).run r).get? s.1 = some s.2 ∧
          ((loadSet (encodeSet (compiledSet config disk paths))).run r).get? s.1 = some s.2 := by
  obtain ⟨pool, names, hlink, hsensible, hne, hstores⟩ := parseFiles_registers h
  have hread := readSet?_compiledSet hdepth hsizes
  generalize compiledSet config disk paths = files at hlink hdepth hread ⊢
  have hload := loadSet_eq hread hlink
  have hpresent : ∀ name ∈ names, name ∈ files.map (·.name) := by
    rw [← Pool.link?_names hlink]
    exact hsensible.present
  have hfiles : files ≠ [] := by
    rintro rfl
    obtain ⟨name, hname⟩ := List.exists_mem_of_ne_nil names hne
    cases hpresent name hname
  obtain ⟨houtcome, hstored⟩ := register_all hlink (withinLimit_of_depth hdepth) hfiles
  have hfirst := stores_isFirstPart (register_explains hsensible)
  rw [hload]
  refine ⟨houtcome, fun s hs r => ?_⟩
  have hdistinct : ((parseFiles config disk paths).stores.map (·.1)).Nodup := by
    rw [hstores]
    exact hsensible.nodup.sublist hfirst
  have hall : ((register pool (files.map (·.name))).stores.map (·.1)).Nodup := by
    rw [hstored]
    exact Pool.link?_nodup hlink
  refine ⟨Load.get?_run_of_mem hdistinct hs r, Load.get?_run_of_mem hall ?_ r⟩
  rw [hstores] at hs
  refine stored_of_stored hs ?_
  rw [hstored]
  exact hpresent s.1 (hfirst.subset (List.mem_map_of_mem hs))

/-- Sources of two files of which one imports the other. -/
def imported : Config where
  contents := [("a.proto", "import \"b.proto\"; message A \x7b optional B b = 1; \x7d"),
    ("b.proto", "message B \x7b\x7d")]

theorem loadSet_agrees_imported : (parseFiles imported {} ["a.proto"]).outcome = .ok 1 ∧
    (loadSet (encodeSet (compiledSet imported {} ["a.proto"]))).outcome =
        .ok (compiledSet imported {} ["a.proto"]).length ∧
      ∀ s ∈ (parseFiles imported {} ["a.proto"]).stores, ∀ r : Registry,
        ((parseFiles imported {} ["a.proto"]).run r).get? s.1 = some s.2 ∧
          ((loadSet (encodeSet (compiledSet imported {} ["a.proto"]))).run r).get? s.1 = some s.2 := by
  have hok : (parseFiles imported {} ["a.proto"]).outcome = .ok 1 := by decide +kernel
  have hdepth : setDepth (compiledSet imported {} ["a.proto"]) ≤ nestingBudget := by decide +kernel
  have hlength : (encodeSet (compiledSet imported {} ["a.proto"])).length < Width.size 64 := by
    decide +kernel
  have himports : ∀ f ∈ compiledSet imported {} ["a.proto"], f.imports.length ≤ placeLimit := by
    decide +kernel
  have hchoices : ∀ f ∈ compiledSet imported {} ["a.proto"], ∀ p ∈ f.messageTree,
      p.2.oneofs.length ≤ placeLimit := by decide +kernel
  have hsizes : SizesFit (compiledSet imported {} ["a.proto"]) := ⟨hlength, himports, hchoices⟩
  exact ⟨hok, loadSet_agrees imported {} ["a.proto"] 1 hok hdepth hsizes⟩

/-! ### Messages nested too deeply for a descriptor set -/

/-- A message with some levels of messages of the same name in it. -/
def nested : Nat → Message
  | 0 => { name := "A" }
  | n + 1 => { name := "A", messages := [nested n] }

def deepFile : File := { name := "a.proto", messages := [nested 99] }

def deepChars : List Char :=
  (List.replicate 100 "message A\x7b".toList).flatten ++ List.replicate 100 '\x7d'

/-- The source of `deepFile`. -/
def deepSource : String := String.ofList deepChars

def deepConfig : Config where
  contents := [("a.proto", deepSource)]

set_option maxRecDepth 100000 in
theorem deep_read : Source.read? "a.proto" deepSource = some deepFile := by
  rewrite [deepSource, Source.read?_ofList]
  decide +kernel

theorem deep_linked : (({} : Pool).link? [deepFile]).map (·.settled) = some [deepFile] := by
  decide +kernel

theorem deep_undecodable : readSet? (encodeSet [deepFile]) = none := by decide +kernel

theorem deep_set : compiledSet deepConfig {} ["a.proto"] = [deepFile] ∧
    (parseFiles deepConfig {} ["a.proto"]).outcome = .ok 1 := by
  obtain ⟨pool, hlink, hsettled⟩ := Option.map_eq_some_iff.mp deep_linked
  have hrequest : request? deepConfig "a.proto" = some ⟨"a.proto", true⟩ := by decide +kernel
  have hcompile : (compile deepConfig {} {} ["a.proto"]).2 =
      .ok { pool, loaded := [("a.proto", none)], requested := ["a.proto"] } :=
    compile_alone hrequest rfl deep_read rfl hlink
  have hset : compiledSet deepConfig {} ["a.proto"] = [deepFile] := by
    rw [compiledSet, hcompile]
    exact hsettled
  have hplan : planFiles deepConfig {} ["a.proto"] = .ok (pool, ["a.proto"]) :=
    planFiles_alone hrequest rfl deep_read rfl hlink (by rw [hsettled, hlink])
  -- A thousand levels are shown, which are more than there are.
  have hwithin : WithinLimit [deepFile] := by
    unfold WithinLimit
    decide +kernel
  refine ⟨hset, ?_⟩
  rw [(parseFiles_carriesOut deepConfig {} ["a.proto"]).2, hplan]
  exact (register_all hlink hwithin (List.cons_ne_nil _ _)).1

/-- Sources that load need not load as a descriptor set: snapshots are taken of messages at a thousand
levels, but a reader of descriptor sets follows messages through a hundred levels only. -/
theorem loadSet_disagrees : ¬∀ (config : Config) (disk : Disk) (paths : List String) (n : Nat),
    (parseFiles config disk paths).outcome = .ok n →
      (∃ m, (loadSet (encodeSet (compiledSet config disk paths))).outcome = .ok m) ∧
        ∀ s ∈ (parseFiles config disk paths).stores, ∀ r : Registry,
          ((loadSet (encodeSet (compiledSet config disk paths))).run r).get? s.1 = some s.2 := by
  intro h
  obtain ⟨hset, hok⟩ := deep_set
  obtain ⟨m, hm⟩ := (h deepConfig {} ["a.proto"] 1 hok).1
  rw [hset, loadSet, deep_undecodable] at hm
  cases hm

end SchemaTree.Loader
