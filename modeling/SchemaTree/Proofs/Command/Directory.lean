import SchemaTree.Proofs.Command.Inputs
import SchemaTree.Proofs.Loader.DiskOrder
import SchemaTree.Proofs.Loader.Effect
import SchemaTree.Proofs.Loader.Quiet

/-!
# Loading a directory

A run over a directory takes up the files in the order of their paths. It stops at the first one whose
failure cannot be skipped; otherwise it comes to the same registry as loading the files, one by one,
that can be loaded on their own. The order in which the disk lists its nodes decides nothing.
-/

namespace SchemaTree.Command

/-! ### One file -/

def Progress.warnings (p : Progress) : List Note := p.notes.filter (·.level = .warn)

/-- What it comes to to load a file on its own. -/
def attempt (disk : Disk) (takesSets : Bool) (importPaths : List String) (path : String) :
    Except Setback Unit :=
  (loadFile disk takesSets importPaths {} path).2

theorem warnings_apply (p : Progress) {load : Load} (h : Load.Quiet load.events) :
    (p.apply load).warnings = p.warnings := by
  have hnone : (load.notes p.registry).filter (·.level = .warn) = [] := by
    rw [List.filter_eq_nil_iff]
    intro note hnote hwarn
    exact Load.notesOf_quiet h p.registry note hnote (of_decide_eq_true hwarn)
  unfold Progress.warnings Progress.apply
  rw [List.filter_append, hnone, List.append_nil]

theorem warnings_note (p : Progress) {level : Level} (text : String) (h : level ≠ .warn) :
    (p.note level text).warnings = p.warnings := by
  unfold Progress.warnings Progress.note
  rw [List.filter_append, List.filter_cons_of_neg (by simpa using h), List.filter_nil, List.append_nil]

theorem warnings_warn (p : Progress) (text : String) :
    (p.note .warn text).warnings = p.warnings ++ [⟨.warn, text⟩] := by
  unfold Progress.warnings Progress.note
  rw [List.filter_append]
  rfl

/-- The result of a load, with a setback for its failure. -/
def resultOf (setback : Failure → Setback) : Except Failure Nat → Except Setback Unit
  | .ok _ => .ok ()
  | .error failure => .error (setback failure)

/-- Loading a file refuses it at once, or carries out a call and adds notes. -/
theorem loadFile_cases (disk : Disk) (takesSets : Bool) (importPaths : List String) (path : String) :
    (∀ p, loadFile disk takesSets importPaths p path = (p, .error (.notFile path))) ∨
    ∃ (call : Loader.Call) (setback : Failure → Setback),
      (∀ failure, (setback failure).isSkippable = failure.isRecoverable) ∧
      ∀ p, (loadFile disk takesSets importPaths p path).1.registry = call.load.run p.registry ∧
        (loadFile disk takesSets importPaths p path).1.warnings = p.warnings ∧
        (loadFile disk takesSets importPaths p path).2 = resultOf setback call.load.outcome := by
  cases takesSets with
  | true =>
    refine .inr ⟨.setFile disk path, .setNotLoaded path, fun _ => rfl, ?_⟩
    intro p
    have hwarnings := warnings_apply p (Loader.loadSetFile_quiet disk path)
    simp only [loadFile, if_true, Loader.Call.load]
    cases (Loader.loadSetFile disk path).outcome with
    | ok n => exact ⟨rfl, (warnings_note _ _ (by decide)).trans hwarnings, rfl⟩
    | error failure => exact ⟨rfl, hwarnings, rfl⟩
  | false =>
    cases hfile : disk.isFile path with
    | false =>
      left
      intro p
      simp only [loadFile, hfile, Bool.false_eq_true, if_false, Bool.not_false, if_true]
    | true =>
      refine .inr ⟨.file { importPaths } disk path, .sourceNotLoaded path, fun _ => rfl, ?_⟩
      intro p
      have hwarnings := warnings_apply (p.note .trace ("Parsing " ++ path))
        (Loader.parseFiles_quiet { importPaths } disk [path])
      rw [warnings_note p _ (by decide)] at hwarnings
      simp only [loadFile, hfile, Bool.false_eq_true, if_false, Bool.not_true, Loader.Call.load]
      refine ⟨rfl, hwarnings, ?_⟩
      cases (Loader.parseFile { importPaths } disk path).outcome with
      | ok n => rfl
      | error failure => rfl

section OneFile
variable {disk : Disk} {takesSets : Bool} {importPaths : List String}

/-- Whether a file can be loaded does not depend on what has been loaded before it. -/
theorem loadFile_result (p : Progress) (path : String) :
    (loadFile disk takesSets importPaths p path).2 = attempt disk takesSets importPaths path := by
  unfold attempt
  rcases loadFile_cases disk takesSets importPaths path with hnot | ⟨_, _, _, hcall⟩
  · rw [hnot, hnot]
  · rw [(hcall p).2.2, (hcall {}).2.2]

theorem loadFile_warnings (p : Progress) (path : String) :
    (loadFile disk takesSets importPaths p path).1.warnings = p.warnings := by
  rcases loadFile_cases disk takesSets importPaths path with hnot | ⟨_, _, _, hcall⟩
  · rw [hnot]
  · exact (hcall p).2.1

theorem loadFile_registry {p q : Progress} (h : p.registry = q.registry) (path : String) :
    (loadFile disk takesSets importPaths p path).1.registry =
      (loadFile disk takesSets importPaths q path).1.registry := by
  rcases loadFile_cases disk takesSets importPaths path with hnot | ⟨_, _, _, hcall⟩
  · rw [hnot, hnot]
    exact h
  · rw [(hcall p).1, (hcall q).1, h]

/-- A file whose failure can be skipped leaves no trace in the registry. -/
theorem loadFile_skipped (p : Progress) {path : String} {setback : Setback}
    (h : attempt disk takesSets importPaths path = .error setback) (hskip : setback.isSkippable = true) :
    (loadFile disk takesSets importPaths p path).1.registry = p.registry := by
  rcases loadFile_cases disk takesSets importPaths path with hnot | ⟨call, wrap, hwrap, hcall⟩
  · rw [hnot]
  · unfold attempt at h
    rw [(hcall {}).2.2] at h
    rw [(hcall p).1, Load.run]
    cases houtcome : call.load.outcome with
    | ok n =>
      rw [houtcome] at h
      cases h
    | error failure =>
      rw [houtcome] at h
      cases h
      rw [call.stores_of_recoverable houtcome ((hwrap failure).symm.trans hskip)]
      rfl

end OneFile

/-! ### Files one after the other -/

def canLoad (disk : Disk) (takesSets : Bool) (importPaths : List String) (path : String) : Bool :=
  match attempt disk takesSets importPaths path with
  | .ok () => true
  | .error _ => false

/-- A setback that ends a run over a directory. -/
def Fatal (disk : Disk) (takesSets : Bool) (importPaths : List String) (path : String)
    (setback : Setback) : Prop :=
  attempt disk takesSets importPaths path = .error setback ∧ setback.isSkippable = false

def warningOf (disk : Disk) (takesSets : Bool) (importPaths : List String) (path : String) :
    Option Note :=
  match attempt disk takesSets importPaths path with
  | .ok () => none
  | .error setback => some ⟨.warn, "Skipping " ++ path ++ ": " ++ setback.fullText⟩

section
variable {disk : Disk} {takesSets : Bool} {importPaths : List String}

theorem loadSkipping_cons_ok (p : Progress) {path : String} (paths : List String)
    (h : attempt disk takesSets importPaths path = .ok ()) :
    loadSkipping disk takesSets importPaths p (path :: paths) =
      loadSkipping disk takesSets importPaths (loadFile disk takesSets importPaths p path).1 paths := by
  have hresult := (loadFile_result p path).trans h
  rw [loadSkipping]
  split
  · rename_i p' heq
    rw [heq]
  · rename_i p' setback heq
    rw [heq] at hresult
    cases hresult

theorem loadSkipping_cons_error (p : Progress) {path : String} (paths : List String)
    {setback : Setback} (h : attempt disk takesSets importPaths path = .error setback) :
    loadSkipping disk takesSets importPaths p (path :: paths) =
      if setback.isSkippable then
        loadSkipping disk takesSets importPaths
          ((loadFile disk takesSets importPaths p path).1.note .warn
            ("Skipping " ++ path ++ ": " ++ setback.fullText)) paths
      else ((loadFile disk takesSets importPaths p path).1, .error setback) := by
  have hresult := (loadFile_result p path).trans h
  rw [loadSkipping]
  split
  · rename_i p' heq
    rw [heq] at hresult
    cases hresult
  · rename_i p' setback' heq
    rw [heq] at hresult
    cases hresult
    rw [heq]

theorem loadFiles_cons_ok (p : Progress) {path : String} (paths : List String)
    (h : attempt disk takesSets importPaths path = .ok ()) :
    loadFiles disk takesSets importPaths p (path :: paths) =
      loadFiles disk takesSets importPaths (loadFile disk takesSets importPaths p path).1 paths := by
  have hresult := (loadFile_result p path).trans h
  rw [loadFiles]
  split
  · rename_i p' heq
    rw [heq]
  · rename_i p' setback heq
    rw [heq] at hresult
    cases hresult

/-- Without a setback that ends it, a run that skips files comes to the registry of a run over the
files that can be loaded, and warns of each of the others. -/
theorem loadSkipping_ok {paths : List String}
    (h : ∀ path ∈ paths, ∀ setback, ¬Fatal disk takesSets importPaths path setback) (p q : Progress)
    (hpq : p.registry = q.registry) :
    let run := loadSkipping disk takesSets importPaths p paths
    let direct := loadFiles disk takesSets importPaths q (paths.filter (canLoad disk takesSets importPaths))
    run.2 = .ok () ∧ direct.2 = .ok () ∧ run.1.registry = direct.1.registry ∧
      run.1.warnings = p.warnings ++ paths.filterMap (warningOf disk takesSets importPaths) := by
  induction paths generalizing p q with
  | nil => exact ⟨rfl, rfl, hpq, (List.append_nil _).symm⟩
  | cons path paths ih =>
    have hrest : ∀ other ∈ paths, ∀ setback, ¬Fatal disk takesSets importPaths other setback :=
      fun other hother => h other (List.mem_cons_of_mem path hother)
    cases hown : attempt disk takesSets importPaths path with
    | ok u =>
      cases u
      have hload : canLoad disk takesSets importPaths path = true := by rw [canLoad, hown]
      have hwarning : warningOf disk takesSets importPaths path = none := by rw [warningOf, hown]
      have hsame := ih hrest (loadFile disk takesSets importPaths p path).1
        (loadFile disk takesSets importPaths q path).1 (loadFile_registry hpq path)
      rw [loadFile_warnings] at hsame
      rw [loadSkipping_cons_ok p paths hown, List.filter_cons_of_pos hload, loadFiles_cons_ok q _ hown,
        List.filterMap_cons_none hwarning]
      exact hsame
    | error setback =>
      have hskip : setback.isSkippable = true := by
        by_contra hfatal
        exact h path List.mem_cons_self setback ⟨hown, by simpa using hfatal⟩
      have hload : ¬canLoad disk takesSets importPaths path = true := by
        rw [canLoad, hown]
        exact Bool.false_ne_true
      have hwarning : warningOf disk takesSets importPaths path =
          some ⟨.warn, "Skipping " ++ path ++ ": " ++ setback.fullText⟩ := by rw [warningOf, hown]
      have hsame := ih hrest ((loadFile disk takesSets importPaths p path).1.note .warn
        ("Skipping " ++ path ++ ": " ++ setback.fullText)) q ((loadFile_skipped p hown hskip).trans hpq)
      rw [warnings_warn, loadFile_warnings, List.append_assoc] at hsame
      rw [loadSkipping_cons_error p paths hown, if_pos hskip, List.filter_cons_of_neg hload,
        List.filterMap_cons_some hwarning]
      exact hsame

/-- If some file ends a run, there is a first one that does. -/
theorem exists_first_fatal {paths : List String}
    (h : ∃ path ∈ paths, ∃ setback, Fatal disk takesSets importPaths path setback) :
    ∃ path before after setback, paths = before ++ path :: after ∧
      Fatal disk takesSets importPaths path setback ∧
      ∀ other ∈ before, ∀ s, ¬Fatal disk takesSets importPaths other s := by
  induction paths with
  | nil =>
    obtain ⟨_, hmem, _⟩ := h
    cases hmem
  | cons first rest ih =>
    by_cases hfirst : ∃ setback, Fatal disk takesSets importPaths first setback
    · obtain ⟨setback, hfatal⟩ := hfirst
      exact ⟨first, [], rest, setback, rfl, hfatal, fun other hother => by cases hother⟩
    · obtain ⟨path, hpath, setback, hfatal⟩ := h
      have hne : path ≠ first := fun heq => hfirst ⟨setback, heq ▸ hfatal⟩
      have hrest : path ∈ rest := (List.mem_cons.mp hpath).resolve_left hne
      obtain ⟨found, before, after, s, hcut, hs, hbefore⟩ := ih ⟨path, hrest, setback, hfatal⟩
      refine ⟨found, first :: before, after, s, by rw [hcut, List.cons_append], hs, ?_⟩
      intro other hother
      rcases List.mem_cons.mp hother with rfl | hother
      · exact fun s hs => hfirst ⟨s, hs⟩
      · exact hbefore other hother

/-- A run that skips files ends with the first setback that cannot be skipped. -/
theorem loadSkipping_error {before after : List String} {path : String} {setback : Setback}
    (hbefore : ∀ other ∈ before, ∀ s, ¬Fatal disk takesSets importPaths other s)
    (h : Fatal disk takesSets importPaths path setback) (p : Progress) :
    (loadSkipping disk takesSets importPaths p (before ++ path :: after)).2 = .error setback := by
  induction before generalizing p with
  | nil =>
    rw [List.nil_append, loadSkipping_cons_error p after h.1, h.2]
    rfl
  | cons other before ih =>
    have hrest : ∀ o ∈ before, ∀ s, ¬Fatal disk takesSets importPaths o s :=
      fun o ho => hbefore o (List.mem_cons_of_mem other ho)
    rw [List.cons_append]
    cases hown : attempt disk takesSets importPaths other with
    | ok u =>
      cases u
      rw [loadSkipping_cons_ok p _ hown]
      exact ih hrest _
    | error s =>
      have hskip : s.isSkippable = true := by
        by_contra hfatal
        exact hbefore other List.mem_cons_self s ⟨hown, by simpa using hfatal⟩
      rw [loadSkipping_cons_error p _ hown, if_pos hskip]
      exact ih hrest _

end

/-! ### Directories -/

theorem loadFile_reordered {a b : Disk} (h : a.Reordered b) (takesSets : Bool) (importPaths : List String) :
    loadFile a takesSets importPaths = loadFile b takesSets importPaths := by
  funext p path
  unfold loadFile
  simp only [h.loadSetFile, h.isFile, h.parseFile]

theorem loadSkipping_reordered {a b : Disk} (h : a.Reordered b) (takesSets : Bool)
    (importPaths : List String) (p : Progress) (paths : List String) :
    loadSkipping a takesSets importPaths p paths = loadSkipping b takesSets importPaths p paths := by
  induction paths generalizing p with
  | nil => rfl
  | cons path paths ih =>
    unfold loadSkipping
    simp only [loadFile_reordered h, ih]

theorem loadDirectory_reordered {a b : Disk} (h : a.Reordered b) (takesSets : Bool)
    (importPaths : List String) (p : Progress) (directory : String) :
    loadDirectory a takesSets importPaths p directory =
      loadDirectory b takesSets importPaths p directory := by
  unfold loadDirectory
  simp only [h.exists?, h.isDirectory, filesUnder_reordered h, loadSkipping_reordered h]

/-- The extension of the files that a run over a directory takes up. -/
def inputExtension (takesSets : Bool) : String := if takesSets then "pb" else "proto"

/-- A directory with files to load is loaded by skipping through them; the directory itself goes before
all import paths. -/
theorem loadDirectory_eq {disk : Disk} {takesSets : Bool} (importPaths : List String)
    {directory : String} (p : Progress) (hdirectory : disk.isDirectory directory = true)
    (hfiles : filesUnder disk (inputExtension takesSets) directory ≠ []) :
    ∃ p' : Progress, p'.registry = p.registry ∧ p'.warnings = p.warnings ∧
      loadDirectory disk takesSets importPaths p directory =
        loadSkipping disk takesSets (directory :: importPaths) p'
          (filesUnder disk (inputExtension takesSets) directory) := by
  obtain ⟨file, files, hlist⟩ := List.exists_cons_of_ne_nil hfiles
  refine ⟨(p.note .info ("Scanning directory: " ++ directory)).note .debug
    ("Found " ++ Text.natText (file :: files).length ++ " schema file(s)"), rfl, ?_, ?_⟩
  · rw [warnings_note _ _ (by decide), warnings_note _ _ (by decide)]
  · have hexists : disk.exists? directory = true := by
      rw [Disk.exists?, hdirectory, Bool.or_true]
    rw [hlist]
    unfold inputExtension at hlist
    simp only [loadDirectory, hexists, hdirectory, Bool.not_true, Bool.false_eq_true, if_false, hlist]

/-- A run over a directory ends with the first failure, in the order of the paths, that cannot be
skipped. Without one it comes to the registry of a run over just the files that can be loaded on their
own, with the directory before the import paths, and has warned once of each of the others. -/
theorem directory_as_files (disk : Disk) (takesSets : Bool) (importPaths : List String)
    (directory : String) (hdirectory : disk.isDirectory directory = true)
    (hmatch : ∃ components, Matches disk (inputExtension takesSets) directory components) :
    let files := filesUnder disk (inputExtension takesSets) directory
    let searched := directory :: importPaths
    let run := loadDirectory disk takesSets importPaths {} directory
    let direct := loadFiles disk takesSets searched {} (files.filter (canLoad disk takesSets searched))
    Listed disk (inputExtension takesSets) directory files ∧
    ((∃ setback, run.2 = .error setback) ↔
      ∃ path ∈ files, ∃ setback, Fatal disk takesSets searched path setback) ∧
    (∀ before path after setback, files = before ++ path :: after →
      Fatal disk takesSets searched path setback →
      (∀ other ∈ before, ∀ s, ¬Fatal disk takesSets searched other s) → run.2 = .error setback) ∧
    ((∀ path ∈ files, ∀ setback, ¬Fatal disk takesSets searched path setback) →
      run.2 = .ok () ∧ direct.2 = .ok () ∧ run.1.registry = direct.1.registry ∧
      run.1.warnings = files.filterMap (warningOf disk takesSets searched)) ∧
    ∀ other, disk.Reordered other → loadDirectory other takesSets importPaths {} directory = run := by
  intro files searched run direct
  have hlisted : Listed disk (inputExtension takesSets) directory files := filesUnder_listed _ _ _
  obtain ⟨p, hregistry, hwarnings, hrun⟩ :=
    loadDirectory_eq importPaths {} hdirectory (hlisted.ne_nil hmatch)
  have hend : ∀ before path after setback, files = before ++ path :: after →
      Fatal disk takesSets searched path setback →
      (∀ other ∈ before, ∀ s, ¬Fatal disk takesSets searched other s) → run.2 = .error setback := by
    intro before path after setback hcut hfatal hbefore
    show (loadDirectory disk takesSets importPaths {} directory).2 = .error setback
    rw [hrun, show filesUnder disk (inputExtension takesSets) directory = before ++ path :: after from hcut]
    exact loadSkipping_error hbefore hfatal p
  have hgo : (∀ path ∈ files, ∀ setback, ¬Fatal disk takesSets searched path setback) →
      run.2 = .ok () ∧ direct.2 = .ok () ∧ run.1.registry = direct.1.registry ∧
      run.1.warnings = files.filterMap (warningOf disk takesSets searched) := by
    intro hnone
    have hsame := loadSkipping_ok hnone p {} hregistry
    rw [← hrun, hwarnings] at hsame
    exact hsame
  refine ⟨hlisted, ⟨?_, ?_⟩, hend, hgo, ?_⟩
  · rintro ⟨setback, herror⟩
    by_contra hnone
    have hok := (hgo fun path hpath s hfatal => hnone ⟨path, hpath, s, hfatal⟩).1
    rw [herror] at hok
    cases hok
  · rintro ⟨path, hpath, setback, hfatal⟩
    obtain ⟨first, before, after, s, hcut, hs, hbefore⟩ :=
      exists_first_fatal ⟨path, hpath, setback, hfatal⟩
    exact ⟨s, hend before first after s hcut hs hbefore⟩
  · intro other hother
    exact (loadDirectory_reordered hother takesSets importPaths {} directory).symm

/-- A directory in the working directory, with a source that does not compile, one that cannot be opened
and one that can be loaded. -/
def mixedDisk : Disk where
  nodes := [(["home", "d", "good.proto"], .file (Wire.textBytes "syntax = \"proto3\"; message M \x7b \x7d")),
    (["home", "d", "closed.proto"], .file (Wire.textBytes "syntax = \"proto3\";")),
    (["home", "d", "broken.proto"], .file (Wire.textBytes "message \x7b"))]
  home := ["home"]
  locked := [["home", "d", "closed.proto"]]

theorem mixedDisk_files : filesUnder mixedDisk (inputExtension false) "d" =
    ["d/broken.proto", "d/closed.proto", "d/good.proto"] := by
  have hlocate : mixedDisk.locate "d" = .ok ["home", "d"] := by decide +kernel
  have hunsorted : filesBelow mixedDisk "proto" ["home", "d"] =
      [["good.proto"], ["closed.proto"], ["broken.proto"]].mergeSort componentsLe := by
    unfold filesBelow
    congr 1
    decide +kernel
  have hsorted : [["good.proto"], ["closed.proto"], ["broken.proto"]].mergeSort componentsLe =
      [["broken.proto"], ["closed.proto"], ["good.proto"]] := by
    have hfirst : componentsLe ["good.proto"] ["closed.proto"] = false := by decide +kernel
    have hsecond : componentsLe ["closed.proto"] ["broken.proto"] = false := by decide +kernel
    simp [List.mergeSort, hfirst, hsecond]
  simp only [filesUnder, hlocate, inputExtension, Bool.false_eq_true, if_false, hunsorted, hsorted]
  decide +kernel

theorem directory_as_files_mixed :
    mixedDisk.isDirectory "d" = true ∧
    Matches mixedDisk (inputExtension false) "d" ["good.proto"] ∧
    (loadDirectory mixedDisk false ["."] {} "d").2 = .ok () ∧
    (loadDirectory mixedDisk false ["."] {} "d").1.registry =
      (loadFiles mixedDisk false ["d", "."] {} ["d/good.proto"]).1.registry ∧
    (loadDirectory mixedDisk false ["."] {} "d").1.warnings.length = 2 := by
  have hdirectory : mixedDisk.isDirectory "d" = true := by decide +kernel
  have hmatch : Matches mixedDisk (inputExtension false) "d" ["good.proto"] :=
    ⟨⟨["home", "d"], _, by decide +kernel, List.mem_cons_self, by decide +kernel⟩, by decide +kernel⟩
  have hloaded : ["d/broken.proto", "d/closed.proto", "d/good.proto"].filter
      (canLoad mixedDisk false ["d", "."]) = ["d/good.proto"] := by decide +kernel
  have hskipped : ∀ path ∈ ["d/broken.proto", "d/closed.proto", "d/good.proto"],
      (match attempt mixedDisk false ["d", "."] path with
        | .ok () => true
        | .error setback => setback.isSkippable) = true := by decide +kernel
  have hwarned : (["d/broken.proto", "d/closed.proto", "d/good.proto"].filterMap
      (warningOf mixedDisk false ["d", "."])).length = 2 := by decide +kernel
  have hnone : ∀ path ∈ filesUnder mixedDisk (inputExtension false) "d",
      ∀ setback, ¬Fatal mixedDisk false ["d", "."] path setback := by
    intro path hpath setback ⟨hown, hfatal⟩
    rw [mixedDisk_files] at hpath
    have hskip := hskipped path hpath
    rw [hown] at hskip
    exact Bool.false_ne_true (hfatal.symm.trans hskip)
  obtain ⟨_, _, _, hgo, _⟩ := directory_as_files mixedDisk false ["."] "d" hdirectory ⟨_, hmatch⟩
  obtain ⟨hok, _, hregistry, hwarnings⟩ := hgo hnone
  rw [mixedDisk_files] at hregistry hwarnings
  rw [hloaded] at hregistry
  exact ⟨hdirectory, hmatch, hok, hregistry, by rw [hwarnings, hwarned]⟩

end SchemaTree.Command
