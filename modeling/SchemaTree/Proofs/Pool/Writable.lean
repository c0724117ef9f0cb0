import SchemaTree.Proofs.Options.Writable
import SchemaTree.Proofs.Pool.Link

/-!
# Files that have joined a pool can be written

Resolving settles the type code of every field and keeps all other numbers, and the rules on declarations
bound the positions of choices and imports. So a declared file whose numbers fit can be written once it
has joined a pool.
-/

namespace SchemaTree.Pool
open Descriptor
open Wire (IsInt32)

/-! ### Resolving -/

theorem scalarCode?_isInt32 {code c : Int} (h : scalarCode? code = some c) : IsInt32 c := by
  unfold scalarCode? at h
  split at h
  · cases h
  · split at h
    · rename_i hrange
      rw [← Option.some.inj h]
      constructor
      · omega
      · omega
    · rw [← Option.some.inj h]
      decide

theorem namedCode_isInt32 (code : Int) (entry : Entry) : IsInt32 (namedCode code entry) := by
  unfold namedCode
  split
  · decide
  · split <;> decide

theorem resolveType?_numbered {view : View} {scope : String} {x y : Field} (hx : x.Numbered)
    (h : resolveType? view scope x = some y) : y.Numbered := by
  unfold resolveType? at h
  split at h
  · obtain ⟨_, hcode, rfl⟩ := Option.map_eq_some_iff.mp h
    exact ⟨hx.number, scalarCode?_isInt32 hcode⟩
  · obtain ⟨d, _, rfl⟩ := Option.map_eq_some_iff.mp h
    exact ⟨hx.number, namedCode_isInt32 _ d.entry⟩

theorem resolveType?_oneofIndex {view : View} {scope : String} {x y : Field}
    (h : resolveType? view scope x = some y) : y.oneofIndex = x.oneofIndex := by
  unfold resolveType? at h
  split at h
  · obtain ⟨_, _, rfl⟩ := Option.map_eq_some_iff.mp h
    rfl
  · obtain ⟨_, _, rfl⟩ := Option.map_eq_some_iff.mp h
    rfl

theorem resolveExtension?_numbered {view : View} {scope : String} {x y : Field}
    (hx : x.ExtensionNumbered) (h : resolveExtension? view scope x = some y) : y.ExtensionNumbered := by
  obtain ⟨_, _, h⟩ := Option.bind_eq_some_iff.mp h
  refine ⟨resolveType?_numbered ?_ h, ?_⟩
  · exact ⟨hx.number, hx.typeCode⟩
  · rw [resolveType?_oneofIndex h]
    exact hx.oneofIndex

theorem resolveMessage?_numbered {view : View} {fullName : String} {m m' : Message} (hm : m.Numbered)
    (h : resolveMessage? view fullName m = some m') : m'.Numbered := by
  obtain ⟨fields, extensions, hfields, hextensions, rfl⟩ := resolveMessage?_eq_some h
  have hf : ∀ y ∈ fields, y.Numbered :=
    forall_of_forall₂ hfields hm.fields fun _ _ => resolveType?_numbered
  have hx : ∀ y ∈ extensions, y.ExtensionNumbered :=
    forall_of_forall₂ hextensions hm.extensions fun _ _ => resolveExtension?_numbered
  exact ⟨hf, hx, hm.enums, hm.extensionRanges, hm.reservedRanges⟩

theorem resolveFile?_numbered {view : View} {f g : File} (hf : f.Numbered)
    (h : resolveFile? view f = some g) : g.Numbered := by
  obtain ⟨messages, services, extensions, htree, _, hextensions, rfl⟩ := resolveFile?_eq_some h
  refine ⟨?_, hf.enums, forall_of_forall₂ hextensions hf.extensions fun _ _ => resolveExtension?_numbered⟩
  refine forall_of_forall₂ htree hf.messages fun p q hp hpq => ?_
  obtain ⟨-, m, hm, hqm⟩ := hpq
  have hnumbered := resolveMessage?_numbered hp hm
  rw [hqm]
  exact ⟨hnumbered.fields, hnumbered.extensions, hnumbered.enums, hnumbered.extensionRanges,
    hnumbered.reservedRanges⟩

/-! ### Rules on declarations -/

theorem hasChoices_of_valid {m : Message} (h : hasValidOneofs m = true) : HasChoices m := by
  intro x hx i hi
  have hvalid := List.all_eq_true.mp h x hx
  rw [Option.mem_def.mp hi] at hvalid
  simpa using hvalid

theorem hasChoices_of_validFile {ds : List Declaration} {f : File} (h : isValidFile ds f = true) :
    ∀ p ∈ f.messageTree, HasChoices p.2 := by
  intro p hp
  simp only [isValidFile, Bool.and_eq_true, List.all_eq_true] at h
  have hmessage := h.1.1 p hp
  simp only [isValidMessage, Bool.and_eq_true] at hmessage
  exact hasChoices_of_valid hmessage.1.1.1.1.2

theorem arePlaces_of_areImports {f : File} {positions : List Int} (h : areImports f positions = true) :
    ArePlaces f positions := by
  intro i hi
  simpa using List.all_eq_true.mp h i hi

theorem arePlaces_of_canJoin {old new : List File} (h : canJoin old new = true) {f : File} (hf : f ∈ new) :
    ArePlaces f f.publicImports ∧ ArePlaces f f.weakImports := by
  simp only [canJoin, Bool.and_eq_true, List.all_eq_true] at h
  have hplaces := h.2 f hf
  exact ⟨arePlaces_of_areImports hplaces.1.2, arePlaces_of_areImports hplaces.2⟩

/-! ### Joining -/

theorem Joined.settled_writable {pool linked : Pool} {new resolved settled : List File}
    (h : Joined pool new linked resolved settled) (hnew : ∀ f ∈ new, f.Numbered) :
    ∀ g ∈ settled, g.Writable := by
  intro g hg
  obtain ⟨r, hr, _, _, _, hrg⟩ := exists_of_forall₂_right h.settles hg
  obtain ⟨f, hf, _, _, hfr⟩ := exists_of_forall₂_right h.resolves hr
  obtain ⟨hpublic, hweak⟩ := arePlaces_of_canJoin h.names hf
  have hnumbered := resolveFile?_numbered (hnew f hf) hfr
  have hchoices := hasChoices_of_validFile (h.valid r hr)
  obtain ⟨_, _, _, _, _, _, rfl⟩ := resolveFile?_eq_some hfr
  exact Options.Environment.settleFile?_writable hnumbered hchoices hpublic hweak hrg

end SchemaTree.Pool
