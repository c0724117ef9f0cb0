import SchemaTree.Proofs.Loader.Effect
import SchemaTree.Proofs.Tree.Item

/-!
# The order of fields

A load takes the fields of each message by ascending number, and the outline and the text tree show
them in that order. They come in the order of their declaration exactly if their numbers ascend in it.
-/

namespace SchemaTree

namespace Schema

/-- The names and numbers of the fields of a message, in the order in which they are kept. -/
def Message.layout (m : Message) : List (String × Int) :=
  m.fields.map fun x => (x.name, (x.number.toNat : Int))

/-- The full names of all messages of a file, each with the names and numbers of its fields. -/
def File.layout (file : File) : List (String × List (String × Int)) :=
  file.messageTree.map fun m => (m.fullName, m.layout)

end Schema

/-! ### What shows the fields -/

theorem outline_layout (m : Schema.Message) :
    (Outline.Message.of m).fields.map (fun x => (x.name, (x.number.toNat : Int))) = m.layout := by
  cases m
  simp only [Outline.Message.of, Schema.Message.layout, List.map_map]
  rfl

/-- The lines of a message begin with those of its fields, one after the other. -/
theorem message_lines (indent : String) (depth : Nat) (m : Schema.Message) :
    ∃ rest, (walkMessage (Tree.lister indent) depth m #[]).toList =
      (Tree.margin indent depth ++ ("message " ++ m.name ++ " \x7b")) ::
        m.fields.map (fun x => Tree.margin indent depth ++ Tree.fieldLine x) ++ rest := by
  obtain ⟨name, fullName, fields, messages, enums⟩ := m
  refine ⟨((messagesEvents (depth + 1) messages ++ (enums.map fun e => Event.enum e (depth + 1)) ++
    [Event.endMessage ⟨name, fullName, fields, messages, enums⟩ depth]).flatMap
      Tree.eventItems).map (Tree.line indent), ?_⟩
  rw [walkMessage_eq_foldl, Tree.lister_foldl]
  simp only [messageEvents, List.nil_append, List.cons_append, List.flatMap_cons,
    List.flatMap_append, List.flatMap_map, Tree.eventItems, List.map_cons, List.map_append,
    List.append_assoc, Tree.line, Tree.text_message, List.map_map, Function.comp_def,
    ← List.map_eq_flatMap, Tree.text_field]

/-! ### Fields by number -/

/-- The fields of a declared message, given by its full name with their names and numbers, and the
message that is kept for it: they come by ascending number, in the outline and in the text tree too,
and this is the order of declaration only if the declared numbers ascend. -/
structure ByNumber (declared : String × List (String × Int)) (m : Schema.Message) : Prop where
  fullName : m.fullName = declared.1
  perm : m.layout.Perm declared.2
  ascending : m.layout.Pairwise fun a b => a.2 < b.2
  kept : m.layout = declared.2 ↔ declared.2.Pairwise fun a b => a.2 < b.2
  outlined : (Outline.Message.of m).fields.map (fun x => (x.name, (x.number.toNat : Int))) = m.layout
  listed : ∀ indent depth, ∃ rest, (walkMessage (Tree.lister indent) depth m #[]).toList =
    (Tree.margin indent depth ++ ("message " ++ m.name ++ " \x7b")) ::
      m.fields.map (fun x => Tree.margin indent depth ++ Tree.fieldLine x) ++ rest

theorem eq_iff_ascending {xs ys : List (String × Int)} (hperm : xs.Perm ys)
    (hxs : xs.Pairwise fun a b => a.2 < b.2) :
    xs = ys ↔ ys.Pairwise fun a b => a.2 < b.2 := by
  refine ⟨fun h => h ▸ hxs, ?_⟩
  intro hys
  refine List.Perm.eq_of_pairwise ?_ hxs hys hperm
  intro a b _ _ hab hba
  omega

open Snapshot in
/-- The layout of a message that is taken up is that of its fields by number. -/
theorem shown_layout {ds : List Pool.Declaration} {file : String} {dialect : Schema.Dialect}
    {p : String × Descriptor.Message} {m : Schema.Message} (h : Shown ds file dialect p m)
    (hnumbers : ∀ x ∈ p.2.fields, Pool.isFieldNumber x.number = true) :
    m.layout = (orderedFields p.2.fields).map fun x => (x.name, x.number) := by
  have hfields : List.Forall₂ (fun x y => y.name = x.name ∧ (y.number.toNat : Int) = x.number)
      (orderedFields p.2.fields) m.fields := by
    refine forall₂_imp_of_mem h.fields fun x hx y hxy => ?_
    exact field_same hxy (hnumbers x ((orderedFields_perm _).mem_iff.mp hx))
  exact map_eq_of_forall₂ hfields fun x y ⟨hname, hnumber⟩ => by rw [hname, hnumber]

open Snapshot in
theorem shown_byNumber {ds : List Pool.Declaration} {file : String} {dialect : Schema.Dialect}
    {p : String × Descriptor.Message} {m : Schema.Message} (h : Shown ds file dialect p m)
    (hnodup : (p.2.fields.map (·.number)).Nodup)
    (hnumbers : ∀ x ∈ p.2.fields, Pool.isFieldNumber x.number = true) :
    ByNumber (p.1, p.2.layout) m := by
  have hlayout := shown_layout h hnumbers
  have hperm : m.layout.Perm p.2.layout := by
    rw [hlayout]
    exact (orderedFields_perm p.2.fields).map _
  have hascending : m.layout.Pairwise fun a b => a.2 < b.2 := by
    rw [hlayout, List.pairwise_map]
    have hdistinct : ((orderedFields p.2.fields).map (·.number)).Nodup :=
      ((orderedFields_perm p.2.fields).map _).nodup_iff.mpr hnodup
    refine (orderedFields_ascending p.2.fields).imp₂ ?_ (List.pairwise_map.mp hdistinct)
    intro a b hle hne
    omega
  exact ⟨h.fullName, hperm, hascending, eq_iff_ascending hperm hascending, outline_layout m,
    fun indent depth => message_lines indent depth m⟩

namespace Loader

/-- Every message of a file that a load stores has the fields of the message as it is declared, by
ascending number and not in the order of their declaration. -/
theorem fields_byNumber (call : Call) (name : String) (file : Schema.File)
    (h : (name, file) ∈ call.load.stores) :
    ∃ d, call.declared? name = some d ∧ List.Forall₂ ByNumber d.layout file.messageTree := by
  have hprepared := call.plan_prepared
  rw [call.load_carriesOut.1] at h
  cases hplan : call.plan with
  | error failure =>
    rw [hplan] at h
    cases h
  | ok planned =>
    obtain ⟨pool, names⟩ := planned
    rw [hplan] at h hprepared
    -- The stored file is the snapshot of a linked one, which has the fields of its declaration.
    obtain ⟨f, hfile, hsnapshot⟩ := mem_stores h
    have hf := List.mem_of_find?_eq_some hfile
    have hname : f.name = name := by simpa using List.find?_some hfile
    obtain ⟨new, hlink⟩ := hprepared.linked
    obtain ⟨d, hd, hlayout⟩ := hprepared.sources f hf
    refine ⟨d, by rw [← hname, hd], ?_⟩
    rw [← hlayout, Descriptor.File.layout, List.forall₂_map_left_iff]
    refine forall₂_imp_of_mem (Snapshot.file_shown hsnapshot).2 fun p hp m hpm => ?_
    obtain ⟨hnodup, hnumbers⟩ := Pool.numbers_of_message hlink hf hp
    exact shown_byNumber hpm hnodup hnumbers

/-- A source of a message whose second field has the smaller number. -/
def swapped : Call :=
  .file { contents := [("a.proto",
    "syntax = \"proto3\"; message M \x7b int32 b = 2; int32 a = 1; \x7d")] } {} "a.proto"

/-- The file that `swapped` stores. -/
def swappedFile : Schema.File :=
  ⟨"a.proto", .proto3, "", [], [⟨"M", "M", [⟨"a", 1, .int32, false, false, .int32 0, none⟩,
    ⟨"b", 2, .int32, false, false, .int32 0, none⟩], [], []⟩], [], []⟩

theorem fields_byNumber_swapped : ("a.proto", swappedFile) ∈ swapped.load.stores ∧
    ∃ d, swapped.declared? "a.proto" = some d ∧
      List.Forall₂ ByNumber d.layout swappedFile.messageTree := by
  have hstored : ("a.proto", swappedFile) ∈ swapped.load.stores := by decide +kernel
  exact ⟨hstored, fields_byNumber swapped "a.proto" swappedFile hstored⟩

/-- The order of declaration is not kept. -/
theorem declaration_order_lost :
    ¬∀ (call : Call) (name : String) (file : Schema.File) (d : Descriptor.File),
      (name, file) ∈ call.load.stores → call.declared? name = some d → file.layout = d.layout := by
  intro h
  have hstored : ("a.proto", swappedFile) ∈ swapped.load.stores := by decide +kernel
  have hdeclared : (swapped.declared? "a.proto").map (·.layout) =
      some [("M", [("b", 2), ("a", 1)])] := by decide +kernel
  obtain ⟨d, hd, hlayout⟩ := Option.map_eq_some_iff.mp hdeclared
  have hkept := h swapped "a.proto" swappedFile d hstored hd
  rw [hlayout] at hkept
  revert hkept
  decide

end Loader
end SchemaTree
