import SchemaTree.Command.Run
import SchemaTree.Proofs.Disk.Write
import SchemaTree.Proofs.Tree.Rebuild

/-!
# All or nothing

What a run loads does not depend on how the result is shown. If loading fails nothing is delivered, and
else the whole text is, on standard output or in a file, unless the file cannot be written or the text
would be too long. A run that delivers nothing leaves the disk as it was.
-/

namespace SchemaTree.Command

/-! ### What is loaded -/

/-- Whether arguments name the same inputs, to be read in the same way. They may still differ in how the
result is shown, where it goes, and how many notes come with it. -/
structure SameInputs (a b : Arguments) : Prop where
  input : a.input = b.input
  importPaths : a.importPaths = b.importPaths
  takesSets : a.takesSets = b.takesSets

theorem load_congr {a b : Arguments} (h : SameInputs a b) (disk : Disk) : load disk a = load disk b := by
  unfold load
  rw [h.input, h.importPaths, h.takesSets]

/-- Loaded inputs, with a failure if nothing has come of them. -/
def checked (loaded : Loaded) : Loaded :=
  match loaded with
  | (p, .error setback) => (p, .error setback)
  | (p, .ok ()) => if p.registry.isEmpty then (p, .error .nothingLoaded) else (p, .ok ())

theorem load_checked (disk : Disk) (a : Arguments) : ∃ loaded, load disk a = checked loaded := by
  unfold load
  split
  rename_i p result _
  refine ⟨(p, result), ?_⟩
  cases result with
  | error setback => rfl
  | ok => rfl

theorem load_nonempty {disk : Disk} {a : Arguments} (h : (load disk a).2 = .ok ()) :
    (load disk a).1.registry.isEmpty = false := by
  obtain ⟨loaded, hload⟩ := load_checked disk a
  rw [hload] at h ⊢
  obtain ⟨p, result⟩ := loaded
  cases result with
  | error setback => cases h
  | ok =>
    simp only [checked] at h ⊢
    split at h
    · cases h
    · rename_i hfull
      rw [if_neg hfull]
      exact eq_false_of_ne_true hfull

/-! ### What is delivered -/

/-- Nothing comes out of a run: standard output is empty and no file is written. -/
structure Withheld (disk : Disk) (outcome : Outcome) : Prop where
  stdout : outcome.stdout = ""
  written : outcome.written = none
  unchanged : outcome.disk disk = disk

theorem withheld_of_written {disk : Disk} {outcome : Outcome} (hstdout : outcome.stdout = "")
    (hwritten : outcome.written = none) : Withheld disk outcome := by
  refine ⟨hstdout, hwritten, ?_⟩
  rw [Outcome.disk, hwritten]

/-- The text that arguments ask for, if neither it nor its indent is too long. -/
inductive Shows (a : Arguments) (registry : Registry) : String → Prop
  | tree (hformat : a.format = .text) (hindent : a.indent < textBound)
    (hsize : (Tree.text (Tree.blanks a.indent) registry).utf8ByteSize < textBound) :
    Shows a registry (Tree.text (Tree.blanks a.indent) registry)
  | outline (hformat : a.format = .json)
    (hsize : (Outline.json registry ++ "\n").utf8ByteSize < textBound) :
    Shows a registry (Outline.json registry ++ "\n")

theorem shows_iff {a : Arguments} {registry : Registry} {text : String} :
    Shows a registry text ↔ render? a registry = some text := by
  constructor
  · rintro (⟨hformat, hindent, hsize⟩ | ⟨hformat, hsize⟩)
    · rw [Tree.blanks] at hsize
      simp only [render?, hformat, if_pos hindent, Option.filter_some, hsize, decide_true, if_true,
        Tree.blanks]
    · simp only [render?, hformat, Option.filter_some, hsize, decide_true, if_true]
  · intro h
    cases hformat : a.format with
    | text =>
      simp only [render?, hformat, Option.filter_eq_some_iff, Option.ite_none_right_eq_some,
        Option.some.injEq, decide_eq_true_eq] at h
      obtain ⟨⟨hindent, rfl⟩, hsize⟩ := h
      exact .tree hformat hindent hsize
    | json =>
      simp only [render?, hformat, Option.filter_eq_some_iff, Option.some.injEq,
        decide_eq_true_eq] at h
      obtain ⟨rfl, hsize⟩ := h
      exact .outline hformat hsize

/-- What becomes of a text that goes to standard output, or to a file if there is a path. -/
inductive Delivers (disk : Disk) (printFault? : Option String) (text : String) :
    Option String → Outcome → Prop
  | printed {outcome : Outcome} (code : outcome.code = 0) (hfault : printFault? = none)
    (stdout : outcome.stdout = text) (unchanged : outcome.disk disk = disk) :
    Delivers disk printFault? text none outcome
  | unprinted {outcome : Outcome} {fault : String} (code : outcome.code = 1)
    (hfault : printFault? = some fault) (setback : outcome.setback = some (.notPrinted fault))
    (withheld : Withheld disk outcome) : Delivers disk printFault? text none outcome
  | filed {outcome : Outcome} {path : String} {target : List String} (code : outcome.code = 0)
    (stdout : outcome.stdout = "")
    (wrote : Disk.Wrote disk (outcome.disk disk) path (Wire.textBytes text) target) :
    Delivers disk printFault? text (some path) outcome
  | unwritable {outcome : Outcome} {path : String} {fault : Fault} (code : outcome.code = 1)
    (hfault : disk.write path (Wire.textBytes text) = .error fault)
    (setback : outcome.setback = some (.notWritten path fault)) (withheld : Withheld disk outcome) :
    Delivers disk printFault? text (some path) outcome

section
variable {disk : Disk} {a : Arguments} {printFault? : Option String}

theorem run_failed {setback : Setback} (h : (load disk a).2 = .error setback) :
    (run disk a printFault?).code = 1 ∧ (run disk a printFault?).setback = some setback ∧
      Withheld disk (run disk a printFault?) := by
  unfold run
  generalize load disk a = loaded at h ⊢
  obtain ⟨p, result⟩ := loaded
  cases h
  exact ⟨rfl, rfl, withheld_of_written rfl rfl⟩

theorem run_rendered {text : String} (hload : (load disk a).2 = .ok ())
    (htext : render? a (load disk a).1.registry = some text) :
    Delivers disk printFault? text a.output (run disk a printFault?) := by
  unfold run
  generalize load disk a = loaded at hload htext ⊢
  obtain ⟨p, result⟩ := loaded
  cases hload
  have hrendered : render? a (p.note .info (summary p.registry)).registry = some text := htext
  dsimp only
  rw [hrendered]
  cases houtput : a.output with
  | none =>
    cases hfault : printFault? with
    | none => exact .printed rfl rfl rfl rfl
    | some fault => exact .unprinted rfl rfl rfl (withheld_of_written rfl rfl)
  | some path =>
    dsimp only
    cases hwrite : disk.write path (Wire.textBytes text) with
    | error fault => exact .unwritable rfl hwrite rfl (withheld_of_written rfl rfl)
    | ok after =>
      obtain ⟨target, hwrote⟩ := Disk.write_wrote hwrite
      have hafter : (disk.write path (Wire.textBytes text)).toOption.getD disk = after := by
        rw [hwrite]
        rfl
      rw [← hafter] at hwrote
      exact .filed rfl rfl hwrote

theorem run_brokenOff (hload : (load disk a).2 = .ok ())
    (hnone : render? a (load disk a).1.registry = none) :
    (run disk a printFault?).code = brokenOff ∧ Withheld disk (run disk a printFault?) := by
  unfold run
  generalize load disk a = loaded at hload hnone ⊢
  obtain ⟨p, result⟩ := loaded
  cases hload
  have hrendered : render? a (p.note .info (summary p.registry)).registry = none := hnone
  dsimp only
  rw [hrendered]
  exact ⟨rfl, withheld_of_written rfl rfl⟩

end

/-- The command is all or nothing. Without a failure the registry is not empty, and its text is delivered;
with one, or if the text would be too long, nothing is. Whether there is a failure, and which, depends on
the inputs only. -/
theorem answer_allOrNothing (disk : Disk) (arguments : List String) (printFault? : Option String)
    (a : Arguments) (hread : Arguments.read arguments = .ok a) :
    let outcome := (answer disk arguments printFault?).outcome
    (∀ setback, (load disk a).2 = .error setback →
      outcome.code = 1 ∧ outcome.setback = some setback ∧ Withheld disk outcome) ∧
    ((load disk a).2 = .ok () → (load disk a).1.registry.isEmpty = false ∧
      (∀ text, Shows a (load disk a).1.registry text →
        Delivers disk printFault? text a.output outcome) ∧
      ((∀ text, ¬Shows a (load disk a).1.registry text) →
        outcome.code = brokenOff ∧ Withheld disk outcome)) ∧
    ∀ others b, Arguments.read others = .ok b → SameInputs a b → load disk b = load disk a := by
  intro outcome
  have houtcome : outcome = run disk a printFault? := by
    show (answer disk arguments printFault?).outcome = run disk a printFault?
    rw [answer, hread]
  rw [houtcome]
  refine ⟨fun setback h => run_failed h, ?_, fun others b _ h => (load_congr h disk).symm⟩
  intro h
  refine ⟨load_nonempty h, ?_, ?_⟩
  · intro text htext
    exact run_rendered h (shows_iff.mp htext)
  · intro hnone
    refine run_brokenOff h (Option.eq_none_iff_forall_not_mem.mpr ?_)
    intro text htext
    exact hnone text (shows_iff.mpr htext)

/-- A disk with a source of two messages, one inside the other. -/
def sourceDisk : Disk :=
  .ofNodes ["home"] [("a.proto", .file (Wire.textBytes "message A \x7b message B \x7b\x7d \x7d"))]

/-- The arguments that `["a.proto", "-o", "out.txt", "--indent", "2"]` come to. -/
def filing : Arguments := { input := .files ["a.proto"], output := some "out.txt", indent := 2 }

theorem answer_allOrNothing_filing :
    Arguments.read ["a.proto", "-o", "out.txt", "--indent", "2"] = .ok filing ∧
      (load sourceDisk filing).2 = .ok () ∧
      Delivers sourceDisk none (Tree.text (Tree.blanks 2) (load sourceDisk filing).1.registry)
        (some "out.txt") (answer sourceDisk ["a.proto", "-o", "out.txt", "--indent", "2"]).outcome := by
  have hread : Arguments.read ["a.proto", "-o", "out.txt", "--indent", "2"] = .ok filing := by
    decide +kernel
  have hload : (load sourceDisk filing).2 = .ok () := by decide +kernel
  have hindent : filing.indent < textBound := by decide +kernel
  have hsize : (Tree.text (Tree.blanks 2) (load sourceDisk filing).1.registry).utf8ByteSize < textBound := by
    decide +kernel
  obtain ⟨_, hloaded, _⟩ := answer_allOrNothing sourceDisk _ none filing hread
  exact ⟨hread, hload, (hloaded hload).2.1 _ (.tree rfl hindent hsize)⟩

/-- A disk with a source that declares nothing, so that no line of its text is indented. -/
def bareDisk : Disk := .ofNodes ["home"] [("a.proto", .file (Wire.textBytes "syntax = \"proto3\";"))]

/-- The arguments that `["a.proto", "--indent", "9223372036854775808"]` come to. -/
def overIndented : Arguments := { input := .files ["a.proto"], indent := 9223372036854775808 }

/-- With an indent that is too long for a text, the command breaks off after it has loaded everything. -/
theorem answer_breaksOff : ¬∀ (disk : Disk) (arguments : List String) (a : Arguments),
    Arguments.read arguments = .ok a → (load disk a).2 = .ok () → a.output = none →
      (answer disk arguments).outcome.code = 0 := by
  intro h
  have hread : Arguments.read ["a.proto", "--indent", "9223372036854775808"] = .ok overIndented := by
    decide +kernel
  have hload : (load bareDisk overIndented).2 = .ok () := by decide +kernel
  have hcode : (answer bareDisk ["a.proto", "--indent", "9223372036854775808"]).outcome.code = 101 := by
    decide +kernel
  rw [h bareDisk _ _ hread hload rfl] at hcode
  cases hcode

end SchemaTree.Command
