import Mathlib.Data.List.Induction
import SchemaTree.Proofs.Descriptor.Decoded
import SchemaTree.Proofs.Loader.Origin

/-!
# The enums of stored files

A stored file has the enums of the declared file of its name, in the same places and under the same full
names. Each is what a snapshot takes up of the declared enum, whose numbers fit into 32 bits.
-/

namespace SchemaTree

/-- All enums of a file with their full names, those in its messages first. -/
def Schema.File.enumTree (file : Schema.File) : List (String × Schema.Enum) :=
  file.messageTree.flatMap (fun m => m.enums.map fun e => (Descriptor.qualify m.fullName e.name, e)) ++
    file.enums.map fun e => (Descriptor.qualify file.package e.name, e)

/-! ### Enums without options -/

namespace Pool
open Descriptor

theorem searchBase_bare (values : List EnumValue) (number : Int) (fuel base size : Nat) :
    searchBase (values.map .bare) number fuel base size = searchBase values number fuel base size := by
  induction fuel generalizing base size with
  | zero => rfl
  | succ fuel ih =>
    simp only [searchBase, List.getElem?_map, Option.any_map, EnumValue.bare_number, ih]
    rfl

theorem searchPlace_bare (values : List EnumValue) (number : Int) :
    searchPlace (values.map .bare) number = searchPlace values number := by
  rw [searchPlace, searchBase_bare, List.length_map, searchPlace]

theorem insertValue_bare (values : List EnumValue) (value : EnumValue) :
    insertValue (values.map .bare) value.bare = (insertValue values value).map .bare := by
  simp only [insertValue, EnumValue.bare_number, searchPlace_bare, List.getElem?_map, Option.any_map,
    List.map_append, List.map_cons, List.map_take, List.map_drop]
  rfl

theorem orderedValues_bare (values : List EnumValue) :
    orderedValues (values.map .bare) = (orderedValues values).map .bare := by
  induction values using List.reverseRecOn with
  | nil => rfl
  | append_singleton values v ih =>
    simp only [orderedValues, List.map_append, List.map_cons, List.map_nil, List.foldl_append,
      List.foldl_cons, List.foldl_nil] at ih ⊢
    rw [ih, insertValue_bare]

end Pool

namespace Snapshot
open Descriptor

theorem enum_bare (e : Enum) : enum e.bare = enum e := by
  simp only [enum, Enum.bare, Pool.orderedValues_bare, List.map_map, Function.comp_def,
    EnumValue.bare_name, EnumValue.bare_number]

/-! ### Enums of a snapshot -/

theorem file_enumTree {ds : List Pool.Declaration} {f : File} {s : Schema.File} (h : file ds f = .ok s) :
    s.enumTree = f.enumTree.map fun p => (p.1, enum p.2) := by
  have hshown := (file_shown h).2
  obtain ⟨messages, hmessages, h⟩ := bind_eq_ok h
  cases h
  have hnamed (scope : String) (es : List Enum) :
      (es.map enum).map (fun e => (qualify scope e.name, e)) =
        (namedEnums scope es).map fun p => (p.1, enum p.2) := by
    simp only [namedEnums, List.map_map, Function.comp_def, enum]
  rw [Schema.File.enumTree, File.enumTree, List.map_append, hnamed, List.map_flatMap]
  refine congrArg (· ++ _) (flatMap_eq_of_forall₂ hshown fun p m hpm => ?_)
  rw [hpm.fullName, hpm.enums, hnamed]

end Snapshot

/-! ### Enums of a declared file -/

namespace Descriptor

mutual

theorem tree_int32 : ∀ (scope : String) (m : Message), m.HasInt32 →
    ∀ p ∈ Message.tree scope m, ∀ e ∈ p.2.enums, e.HasInt32
  | scope, ⟨name, _, _, messages, _, _, _, _, _, _⟩, h => by
    obtain ⟨henums, hmessages⟩ := h
    exact List.forall_mem_cons.mpr ⟨henums, trees_int32 (qualify scope name) messages hmessages⟩

theorem trees_int32 : ∀ (scope : String) (ms : List Message), (∀ m ∈ ms, m.HasInt32) →
    ∀ p ∈ Message.trees scope ms, ∀ e ∈ p.2.enums, e.HasInt32
  | _, [], _ => List.forall_mem_nil _
  | scope, m :: ms, h => by
    obtain ⟨hm, hms⟩ := List.forall_mem_cons.mp h
    exact List.forall_mem_append.mpr ⟨tree_int32 scope m hm, trees_int32 scope ms hms⟩

end

theorem forall_enumTree {f : File} {P : Enum → Prop}
    (hmessages : ∀ p ∈ f.messageTree, ∀ e ∈ p.2.enums, P e) (henums : ∀ e ∈ f.enums, P e) :
    ∀ p ∈ f.enumTree, P p.2 := by
  intro p hp
  rcases List.mem_append.mp hp with hp | hp
  · obtain ⟨q, hq, hp⟩ := List.mem_flatMap.mp hp
    obtain ⟨e, he, rfl⟩ := List.mem_map.mp hp
    exact hmessages q hq e he
  · obtain ⟨e, he, rfl⟩ := List.mem_map.mp hp
    exact henums e he

theorem File.HasInt32.enumTree {f : File} (h : f.HasInt32) : ∀ p ∈ f.enumTree, p.2.HasInt32 :=
  forall_enumTree (trees_int32 f.package f.messages h.messages) h.enums

theorem File.Numbered.enumTree {f : File} (h : f.Numbered) : ∀ p ∈ f.enumTree, p.2.HasInt32 :=
  forall_enumTree (fun p hp e he => ((h.messages p hp).enums e he).values)
    fun e he => (h.enums e he).values

end Descriptor

namespace Loader

theorem setFile?_int32 {bytes : Bytes} {name : String} {d : Descriptor.File}
    (h : setFile? bytes name = some d) : d.HasInt32 := by
  obtain ⟨files, hfiles, h⟩ := Option.bind_eq_some_iff.mp h
  exact Descriptor.readSet?_int32 hfiles d (List.mem_of_find?_eq_some h)

/-- The numbers of all declared values fit into 32 bits. -/
theorem Call.declared?_int32 {call : Call} {name : String} {d : Descriptor.File}
    (h : call.declared? name = some d) : ∀ p ∈ d.enumTree, p.2.HasInt32 := by
  cases call with
  | file config disk path => exact (declared?_numbered h).enumTree
  | files config disk paths => exact (declared?_numbered h).enumTree
  | set bytes => exact (setFile?_int32 h).enumTree
  | setFile disk path =>
    rw [Call.declared?, setFileOnDisk?] at h
    split at h
    · cases h
    · exact (setFile?_int32 h).enumTree

/-! ### Enums of a stored file -/

theorem enumTree_of_bare {f d : Descriptor.File} (h : f.bare = d.bare) :
    (f.enumTree.map fun p => (p.1, Snapshot.enum p.2)) =
      d.enumTree.map fun p => (p.1, Snapshot.enum p.2) := by
  refine (map_eq_of_forall₂ (Descriptor.forall₂_enumTree_of_bare h) ?_).symm
  rintro p q ⟨hname, hbare⟩
  rw [hname, ← Snapshot.enum_bare, hbare, Snapshot.enum_bare]

theorem Call.stored_enumTree {call : Call} {name : String} {file : Schema.File} {d : Descriptor.File}
    (h : (name, file) ∈ call.load.stores) (hd : call.declared? name = some d) :
    file.enumTree = d.enumTree.map fun p => (p.1, Snapshot.enum p.2) := by
  obtain ⟨pool, f, d', hfrom⟩ := call.stored_from h
  obtain rfl := Option.some.inj (hfrom.declares.symm.trans hd)
  rw [Snapshot.file_enumTree hfrom.snapshot, enumTree_of_bare hfrom.bare]

end Loader
end SchemaTree
