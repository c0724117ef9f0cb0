import SchemaTree.Proofs.Loader.Enums
import SchemaTree.Proofs.Loader.LineBreak
import SchemaTree.Proofs.Loader.Mirror
import SchemaTree.Proofs.Pool.EnumSearch
import SchemaTree.Proofs.Pool.Names

/-!
# The order of the values of an enum

A load takes the values of each enum by ascending number. Of the values that share a number the first
declared one comes last, and the others come in the order of their declaration. The outline and the text
tree show the values in that order. It is the order of declaration exactly if the declared numbers ascend.
-/

namespace SchemaTree

/-! ### Values by number -/

/-- An enum as it is declared, under its full name, and the enum that is kept for it. -/
structure ValuesByNumber (declared : String × Descriptor.Enum) (kept : String × Schema.Enum) : Prop where
  fullName : kept.1 = declared.1
  name : kept.2.name = declared.2.name
  perm : kept.2.layout.Perm declared.2.layout
  ascending : kept.2.layout.Pairwise fun a b => a.2 ≤ b.2
  aliases : ∀ n : Int, kept.2.layout.filter (·.2 = n) = (declared.2.layout.filter (·.2 = n)).rotate 1
  unchanged : kept.2.layout = declared.2.layout ↔ declared.2.layout.Pairwise fun a b => a.2 < b.2

theorem enum_layout {e : Descriptor.Enum} (he : e.HasInt32) :
    (Snapshot.enum e).layout = (Pool.orderedValues e.values).map fun v => (v.name, v.number) := by
  simp only [Schema.Enum.layout, Snapshot.enum, List.map_map, Function.comp_def]
  refine List.map_congr_left fun v hv => ?_
  rw [toInt_of_isInt32 (he v ((Pool.orderedValues_perm e.values).mem_iff.mp hv))]

theorem filter_layout (values : List Descriptor.EnumValue) (n : Int) :
    (values.map fun v => (v.name, v.number)).filter (·.2 = n) =
      (Pool.withNumber values n).map fun v => (v.name, v.number) := by
  simp only [List.filter_map, Function.comp_def, Pool.withNumber]

/-- No two values share a number if rotating the values of each number changes nothing. -/
theorem ascending_of_rotated {layout : List (String × Int)} (hnodup : layout.Nodup)
    (hle : layout.Pairwise fun a b => a.2 ≤ b.2)
    (hrotated : ∀ n : Int, layout.filter (·.2 = n) = (layout.filter (·.2 = n)).rotate 1) :
    layout.Pairwise fun a b => a.2 < b.2 := by
  rw [List.pairwise_iff_forall_sublist] at hle ⊢
  intro a b hab
  refine Int.lt_iff_le_and_ne.mpr ⟨hle hab, fun heq => ?_⟩
  -- The two values would be rotated around each other.
  have hboth : [a, b].Sublist (layout.filter (·.2 = a.2)) := by
    have hfilter := hab.filter (·.2 = a.2)
    rwa [List.filter_eq_self.mpr (by simp [heq])] at hfilter
  have htwo : 2 ≤ (layout.filter (·.2 = a.2)).length := hboth.length_le
  rcases (hnodup.filter _).rotate_eq_self_iff.mp (hrotated a.2).symm with hone | hnil
  · rw [Nat.mod_eq_of_lt htwo] at hone
    cases hone
  · rw [hnil] at htwo
    cases htwo

theorem enum_byNumber {fullName : String} {e : Descriptor.Enum} (he : e.HasInt32)
    (hnames : (e.values.map (·.name)).Nodup) :
    ValuesByNumber (fullName, e) (fullName, Snapshot.enum e) := by
  have hperm : (Snapshot.enum e).layout.Perm e.layout := by
    rw [enum_layout he]
    exact (Pool.orderedValues_perm e.values).map _
  have hascending : (Snapshot.enum e).layout.Pairwise fun a b => a.2 ≤ b.2 := by
    rw [enum_layout he, List.pairwise_map]
    exact Pool.orderedValues_ascending e.values
  have haliases (n : Int) : (Snapshot.enum e).layout.filter (·.2 = n) =
      (e.layout.filter (·.2 = n)).rotate 1 := by
    rw [enum_layout he, Descriptor.Enum.layout, filter_layout, filter_layout,
      Pool.withNumber_orderedValues, List.map_rotate]
  refine ⟨rfl, rfl, hperm, hascending, haliases, ?_, ?_⟩
  · intro hkept
    have hnodup : e.layout.Nodup := by
      refine List.Nodup.of_map (·.1) ?_
      simpa only [Descriptor.Enum.layout, List.map_map, Function.comp_def] using hnames
    rw [hkept] at hascending haliases
    exact ascending_of_rotated hnodup hascending haliases
  · intro hdeclared
    have hdistinct : ((Snapshot.enum e).layout.map (·.2)).Nodup := by
      rw [(hperm.map (·.2)).nodup_iff]
      exact List.pairwise_map.mpr (hdeclared.imp fun hlt => Int.ne_of_lt hlt)
    refine (eq_iff_ascending hperm ?_).mpr hdeclared
    exact hascending.imp₂ (fun a b hle hne => by omega) (List.pairwise_map.mp hdistinct)

/-! ### What shows the values -/

namespace Outline

mutual

/-- The enums in a message and in all messages nested in it. -/
def Message.allEnums : Message → List Schema.Enum
  | ⟨_, _, messages, enums⟩ => enums ++ Message.allEnumsOf messages

def Message.allEnumsOf : List Message → List Schema.Enum
  | [] => []
  | m :: ms => Message.allEnums m ++ Message.allEnumsOf ms

end

def File.allEnums (file : File) : List Schema.Enum := Message.allEnumsOf file.messages ++ file.enums

mutual

theorem allEnums_of : ∀ m : Schema.Message, (Message.of m).allEnums = m.tree.flatMap (·.enums)
  | ⟨_, _, _, messages, enums⟩ => by
    rw [Message.of, Message.allEnums, Schema.Message.tree, List.flatMap_cons, allEnumsOf_of messages]

theorem allEnumsOf_of : ∀ ms : List Schema.Message,
    Message.allEnumsOf (Message.ofAll ms) = (Schema.Message.trees ms).flatMap (·.enums)
  | [] => rfl
  | m :: ms => by
    rw [Message.ofAll, Message.allEnumsOf, Schema.Message.trees, List.flatMap_append, allEnums_of m,
      allEnumsOf_of ms]

end

theorem File.allEnums_of (file : Schema.File) : (File.of file).allEnums = file.enumTree.map (·.2) := by
  simp only [File.allEnums, File.of, allEnumsOf_of, Schema.File.enumTree, Schema.File.messageTree,
    List.map_append, List.map_flatMap, List.map_map, Function.comp_def, List.map_id']

end Outline

namespace Tree

/-- The lines that show an enum: one for each value in the order of the values, between two that open and
close the block. -/
def enumLines (indent : String) (depth : Nat) (e : Schema.Enum) : List String :=
  (margin indent depth ++ ("enum " ++ e.name ++ " \x7b")) ::
    e.values.map (fun v => margin indent depth ++ valueLine v) ++ [margin indent depth ++ "\x7d"]

theorem map_line_enum (indent : String) (depth : Nat) (e : Schema.Enum) :
    (enumItems depth e).map (line indent) = enumLines indent depth e := by
  rw [enumItems, map_line_block, text_enum, List.map_map]
  rfl

theorem enumLines_infix {registry : Registry} {e : Schema.Enum} {depth : Nat}
    (h : Event.enum e depth ∈ registry.events) (indent : String) :
    enumLines indent depth e <:+: lines indent registry := by
  obtain ⟨before, after, hevents⟩ := List.append_of_mem h
  refine ⟨(before.flatMap eventItems).map (line indent), (after.flatMap eventItems).map (line indent), ?_⟩
  rw [lines_eq_events, hevents, ← map_line_enum]
  simp only [List.flatMap_append, List.flatMap_cons, List.map_append, eventItems, List.append_assoc]

end Tree

/-- What a registry that holds a file shows of the enums of the file: the outline has them as they are
kept, and the text tree has a block of lines for each. -/
structure ShowsEnums (registry : Registry) (file : Schema.File) : Prop where
  outlined : ∃ outline ∈ Outline.ofRegistry registry, outline.name = file.name ∧
    outline.allEnums = file.enumTree.map (·.2)
  listed : ∀ p ∈ file.enumTree, ∃ depth, ∀ indent,
    Tree.enumLines indent depth p.2 <:+: Tree.lines indent registry

theorem mem_enums_of_enumTree {file : Schema.File} {p : String × Schema.Enum} (h : p ∈ file.enumTree) :
    (∃ m ∈ file.messageTree, p.2 ∈ m.enums) ∨ p.2 ∈ file.enums := by
  rcases List.mem_append.mp h with h | h
  · obtain ⟨m, hm, h⟩ := List.mem_flatMap.mp h
    obtain ⟨e, he, rfl⟩ := List.mem_map.mp h
    exact .inl ⟨m, hm, he⟩
  · obtain ⟨e, he, rfl⟩ := List.mem_map.mp h
    exact .inr he

theorem shows_enums {registry : Registry} {file : Schema.File} (h : file ∈ registry.files) :
    ShowsEnums registry file := by
  refine ⟨⟨Outline.File.of file, ?_, rfl, Outline.File.allEnums_of file⟩, ?_⟩
  · rw [Outline.ofRegistry_eq_map]
    exact List.mem_map_of_mem h
  · intro p hp
    obtain ⟨depth, hevent⟩ := enum_in_fileEvents (mem_enums_of_enumTree hp)
    exact ⟨depth, Tree.enumLines_infix (List.mem_flatMap.mpr ⟨file, h, hevent⟩)⟩

namespace Loader

/-- Every enum of a file that a load stores has the values of the enum as it is declared, by ascending
number and not in the order of their declaration. The order of values of one number rests on the way in which
`Pool.searchBase` bisects: a standard library may change, from one release to the next, which of several equal
numbers its binary search finds. -/
theorem values_byNumber (call : Call) (name : String) (file : Schema.File)
    (h : (name, file) ∈ call.load.stores) :
    (∃ d, call.declared? name = some d ∧ List.Forall₂ ValuesByNumber d.enumTree file.enumTree) ∧
      ∀ registry : Registry, file ∈ registry.files → ShowsEnums registry file := by
  refine ⟨?_, fun registry hfile => shows_enums hfile⟩
  obtain ⟨pool, f, d, hfrom⟩ := call.stored_from h
  obtain ⟨new, hlink⟩ := hfrom.linking
  refine ⟨d, hfrom.declares, ?_⟩
  rw [call.stored_enumTree h hfrom.declares, List.forall₂_map_right_iff, List.forall₂_same]
  intro p hp
  refine enum_byNumber (call.declared?_int32 hfrom.declares p hp) ?_
  -- The declared enum is the linked one but for options, and linking has found its names distinct.
  obtain ⟨q, hq, _, hbare⟩ :=
    exists_of_forall₂_right (Descriptor.forall₂_enumTree_of_bare hfrom.bare) hp
  have hnames := congrArg (List.map (·.name)) (Descriptor.Enum.same_of_bare hbare).2
  simp only [List.map_map, Function.comp_def, Descriptor.EnumValue.bare_name] at hnames
  rw [hnames]
  exact Pool.valueNames_nodup hlink hfrom.mem hq

/-- A source of an enum in a message. The values are in no order, one of them is negative, and three share
a number. -/
def unordered : Call :=
  .file { contents := [("a.proto", "message M \x7b enum E \x7b " ++
    "option allow_alias = true; P = 5; N = -1; Q = 5; Z = 0; R = 5; \x7d \x7d")] } {} "a.proto"

/-- The file that `unordered` stores. -/
def unorderedFile : Schema.File :=
  ⟨"a.proto", .proto2, "", [],
    [⟨"M", "M", [], [], [⟨"E", [⟨"N", -1⟩, ⟨"Z", 0⟩, ⟨"Q", 5⟩, ⟨"R", 5⟩, ⟨"P", 5⟩]⟩]⟩], [], []⟩

theorem values_byNumber_unordered : ("a.proto", unorderedFile) ∈ unordered.load.stores ∧
    (∃ d, unordered.declared? "a.proto" = some d ∧
      List.Forall₂ ValuesByNumber d.enumTree unorderedFile.enumTree) ∧
    ∀ registry : Registry, unorderedFile ∈ registry.files → ShowsEnums registry unorderedFile := by
  have hstored : ("a.proto", unorderedFile) ∈ unordered.load.stores := by decide +kernel
  exact ⟨hstored, values_byNumber unordered "a.proto" unorderedFile hstored⟩

/-- A source of an enum whose second value has the greatest number. -/
def reordered : Call :=
  .file { contents := [("a.proto",
    "syntax = \"proto3\"; enum E \x7b Z = 0; B = 2; A = 1; \x7d")] } {} "a.proto"

/-- The file that `reordered` stores. -/
def reorderedFile : Schema.File :=
  ⟨"a.proto", .proto3, "", [], [], [⟨"E", [⟨"Z", 0⟩, ⟨"A", 1⟩, ⟨"B", 2⟩]⟩], []⟩

/-- The values are not in the order of their declaration. -/
theorem value_order_lost :
    ¬∀ (call : Call) (name : String) (file : Schema.File) (d : Descriptor.File),
      (name, file) ∈ call.load.stores → call.declared? name = some d →
        file.enumTree.map (fun p => (p.1, p.2.layout)) = d.enumTree.map fun p => (p.1, p.2.layout) := by
  intro h
  have hstored : ("a.proto", reorderedFile) ∈ reordered.load.stores := by decide +kernel
  have hdeclared : (reordered.declared? "a.proto").map
      (fun d => d.enumTree.map fun p => (p.1, p.2.layout)) =
        some [("E", [("Z", 0), ("B", 2), ("A", 1)])] := by
    decide +kernel
  obtain ⟨d, hd, hlayout⟩ := Option.map_eq_some_iff.mp hdeclared
  have hkept := h reordered "a.proto" reorderedFile d hstored hd
  rw [hlayout] at hkept
  revert hkept
  decide

end Loader
end SchemaTree
