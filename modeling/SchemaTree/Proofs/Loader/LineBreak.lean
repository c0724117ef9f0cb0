import SchemaTree.Proofs.Loader.Resolved
import SchemaTree.Proofs.Tree.LineBreak

/-!
# Line breaks in the text of a loaded set

No default clause of a loaded set breaks a line but that of an enum, and what that shows is the name of a
value in the tree. So the text of the set is cut into its lines again exactly if no name in it has a line
break. Names are checked nowhere, and one with a line break can pass for more lines of the tree.
-/

namespace SchemaTree

/-! ### Events of the members of a file -/

mutual

theorem field_of_messageEvents {y : Schema.Field} {d : Nat} : ∀ (depth : Nat) (m : Schema.Message),
    Event.field y d ∈ messageEvents depth m → ∃ n ∈ m.tree, y ∈ n.fields
  | depth, ⟨name, fullName, fields, messages, enums⟩, h => by
    simp only [messageEvents, List.cons_append, List.mem_cons, List.mem_append, List.mem_map,
      reduceCtorEq, false_or, and_false, exists_false, or_false, List.not_mem_nil, Event.field.injEq] at h
    rcases h with ⟨x, hx, rfl, _⟩ | h
    · exact ⟨_, List.mem_cons_self, hx⟩
    · obtain ⟨n, hn, hy⟩ := field_of_messagesEvents (depth + 1) messages h
      exact ⟨n, List.mem_cons_of_mem _ hn, hy⟩

theorem field_of_messagesEvents {y : Schema.Field} {d : Nat} : ∀ (depth : Nat) (ms : List Schema.Message),
    Event.field y d ∈ messagesEvents depth ms → ∃ n ∈ Schema.Message.trees ms, y ∈ n.fields
  | _, [], h => by cases h
  | depth, m :: ms, h => by
    rcases List.mem_append.mp h with h | h
    · obtain ⟨n, hn, hy⟩ := field_of_messageEvents depth m h
      exact ⟨n, List.mem_append_left _ hn, hy⟩
    · obtain ⟨n, hn, hy⟩ := field_of_messagesEvents depth ms h
      exact ⟨n, List.mem_append_right _ hn, hy⟩

end

mutual

theorem enum_in_messageEvents {e : Schema.Enum} {n : Schema.Message} (he : e ∈ n.enums) :
    ∀ (depth : Nat) (m : Schema.Message), n ∈ m.tree → ∃ d, Event.enum e d ∈ messageEvents depth m
  | depth, ⟨name, fullName, fields, messages, enums⟩, h => by
    rcases List.mem_cons.mp h with rfl | h
    · exact ⟨depth + 1, by simp [messageEvents, he]⟩
    · obtain ⟨d, hd⟩ := enum_in_messagesEvents he (depth + 1) messages h
      exact ⟨d, by simp [messageEvents, hd]⟩

theorem enum_in_messagesEvents {e : Schema.Enum} {n : Schema.Message} (he : e ∈ n.enums) :
    ∀ (depth : Nat) (ms : List Schema.Message), n ∈ Schema.Message.trees ms →
      ∃ d, Event.enum e d ∈ messagesEvents depth ms
  | _, [], h => by cases h
  | depth, m :: ms, h => by
    rcases List.mem_append.mp h with h | h
    · obtain ⟨d, hd⟩ := enum_in_messageEvents he depth m h
      exact ⟨d, List.mem_append_left _ hd⟩
    · obtain ⟨d, hd⟩ := enum_in_messagesEvents he depth ms h
      exact ⟨d, List.mem_append_right _ hd⟩

end

theorem mem_sectionEvents {title : Section} {members : List Event} {e : Event} (h : e ∈ members) :
    e ∈ sectionEvents title members := by
  rw [sectionEvents, if_neg (by simpa using List.ne_nil_of_mem h)]
  exact List.mem_cons_of_mem _ h

theorem field_of_fileEvents {y : Schema.Field} {d : Nat} {f : Schema.File}
    (h : Event.field y d ∈ fileEvents f) : ∃ m ∈ f.messageTree, y ∈ m.fields := by
  have hsection {title : Section} {members : List Event}
      (h : Event.field y d ∈ sectionEvents title members) : Event.field y d ∈ members := by
    unfold sectionEvents at h
    split at h
    · cases h
    · exact (List.mem_cons.mp h).resolve_left nofun
  simp only [fileEvents, List.cons_append, List.mem_cons, List.mem_append, reduceCtorEq, false_or,
    List.not_mem_nil, or_false] at h
  rcases h with (h | h) | h
  · exact field_of_messagesEvents 1 f.messages (hsection h)
  · obtain ⟨_, _, h⟩ := List.mem_map.mp (hsection h)
    cases h
  · obtain ⟨_, _, h⟩ := List.mem_map.mp (hsection h)
    cases h

theorem enum_in_fileEvents {e : Schema.Enum} {f : Schema.File}
    (h : (∃ m ∈ f.messageTree, e ∈ m.enums) ∨ e ∈ f.enums) :
    ∃ d, Event.enum e d ∈ fileEvents f := by
  rcases h with ⟨m, hm, he⟩ | he
  · obtain ⟨d, hd⟩ := enum_in_messagesEvents he 1 f.messages hm
    exact ⟨d, by simp [fileEvents, mem_sectionEvents hd]⟩
  · have hmem : Event.enum e 1 ∈ f.enums.map fun e => Event.enum e 1 := List.mem_map_of_mem he
    exact ⟨1, by simp [fileEvents, mem_sectionEvents hmem]⟩

/-! ### What an enum default shows -/

namespace Snapshot
open Descriptor

/-- A declared enum is shown by the snapshot of its file. -/
theorem enum_shown {ds : List Pool.Declaration} {f : File} {s : Schema.File} (h : file ds f = .ok s)
    {name : String} {e : Enum} (he : (name, e) ∈ f.enumTree) :
    (∃ m ∈ s.messageTree, enum e ∈ m.enums) ∨ enum e ∈ s.enums := by
  have hshown := (file_shown h).2
  obtain ⟨messages, hmessages, h⟩ := bind_eq_ok h
  cases h
  rcases List.mem_append.mp he with he | he
  · obtain ⟨p, hp, he⟩ := List.mem_flatMap.mp he
    obtain ⟨e', he', heq⟩ := List.mem_map.mp he
    cases heq
    obtain ⟨m, hm, hpm⟩ := exists_of_forall₂_right hshown.flip hp
    refine .inl ⟨m, hm, ?_⟩
    rw [hpm.enums]
    exact List.mem_map_of_mem he'
  · obtain ⟨e', he', heq⟩ := List.mem_map.mp he
    cases heq
    exact .inr (List.mem_map_of_mem he')

/-- An enum default is the name of a value of the enum. -/
theorem enumDefault_named {ds : List Pool.Declaration} {file fullName : String} {x : Field} {number : Int}
    {value : Schema.DefaultValue} (h : enumDefault ds file fullName x number = .ok value) :
    ∃ e, Pool.enum? ds (referent x.typeName) = some e ∧
      ∃ v ∈ (enum e).values, value.clause? = some v.name := by
  unfold enumDefault at h
  split at h
  · cases h
  · rename_i e he
    split at h
    · rename_i v hv
      cases h
      have hin : v ∈ Pool.orderedValues e.values :=
        List.mem_of_getElem? (Option.filter_eq_some_iff.mp hv).1
      exact ⟨e, he, _, List.mem_map_of_mem hin, rfl⟩
    · cases h

end Snapshot

namespace Loader

theorem loadSet_shows {bytes : Bytes} {n : Nat} (h : (loadSet bytes).outcome = .ok n) :
    ∃ new pool, ({} : Pool).link? new = some pool ∧ Shows pool ((loadSet bytes).run ∅).files := by
  obtain ⟨new, pool, hlink, hsnapshots⟩ := loadSet_snapshots h
  have hperm := loadSet_files bytes
  refine ⟨new, pool, hlink, ?_, ?_⟩
  · intro s hs
    obtain ⟨stored, hstored, rfl⟩ := List.mem_map.mp (hperm.mem_iff.mp hs)
    obtain ⟨f, hf, _, hfs⟩ := exists_of_forall₂_right hsnapshots hstored
    exact ⟨f, hf, hfs⟩
  · intro f hf
    obtain ⟨s, hs, _, hfs⟩ := exists_of_forall₂_right hsnapshots.flip hf
    exact ⟨s.2, hperm.mem_iff.mpr (List.mem_map_of_mem hs), hfs⟩

/-- The default clause of a field in a loaded set is on one line, or that of an enum and a name in the
tree. -/
theorem clause_oneLine {bytes : Bytes} {n : Nat} (h : (loadSet bytes).outcome = .ok n) {y : Schema.Field}
    {depth : Nat} (hy : Event.field y depth ∈ ((loadSet bytes).run ∅).events) {clause : String}
    (hclause : y.defaultClause? = some clause) :
    Text.IsOneLine clause ∨ (y.kind = .enum ∧ clause ∈ Tree.allNames ((loadSet bytes).run ∅)) := by
  obtain ⟨new, pool, hlink, hshows⟩ := loadSet_shows h
  obtain ⟨s, hs, hy⟩ := List.mem_flatMap.mp hy
  obtain ⟨m, hm, hy⟩ := field_of_fileEvents hy
  obtain ⟨f, hf, hsnapshot⟩ := hshows.source s hs
  obtain ⟨p, hp, x, hx, hxy⟩ := field_source hsnapshot hm hy
  obtain ⟨value, hvalue, hxy⟩ := bind_eq_ok hxy
  cases hxy
  by_cases hkind : Snapshot.kind x = .enum
  · refine .inr ⟨hkind, ?_⟩
    obtain ⟨number, hnumber⟩ :=
      Snapshot.default_enum pool.declarations f.name (Descriptor.qualify p.1 x.name)
        (Schema.Kind.code_of_enum hkind)
    rw [hnumber] at hvalue
    obtain ⟨e, he, v, hv, hname⟩ := Snapshot.enumDefault_named hvalue
    obtain ⟨g, hg, hin⟩ := Pool.enum?_declared hlink he
    obtain ⟨t, ht, htsnapshot⟩ := hshows.shown g hg
    obtain ⟨d, hd⟩ := enum_in_fileEvents (Snapshot.enum_shown htsnapshot hin)
    rw [Schema.Field.defaultClause?, hkind] at hclause
    cases hname.symm.trans hclause
    refine List.mem_flatMap.mpr ⟨_, List.mem_flatMap.mpr ⟨t, ht, hd⟩, ?_⟩
    exact List.mem_cons_of_mem _ (List.mem_map_of_mem hv)
  · exact .inl (Tree.isOneLine_clause (Snapshot.default_variant hvalue) hkind hclause)

/-- The text of a loaded set is cut into its lines at the line breaks exactly if no name in it has one: the
default clauses add none. -/
theorem loadSet_lines (bytes : Bytes) (n width : Nat) (h : (loadSet bytes).outcome = .ok n) :
    (Text.parts '\n' (Tree.text (Tree.blanks width) ((loadSet bytes).run ∅)) =
        Tree.lines (Tree.blanks width) ((loadSet bytes).run ∅) ++ [""] ↔
      ∀ name ∈ Tree.allNames ((loadSet bytes).run ∅), Text.IsOneLine name) ∧
    ∀ y depth clause, Event.field y depth ∈ ((loadSet bytes).run ∅).events →
      y.defaultClause? = some clause → Text.IsOneLine clause ∨
        (y.kind = .enum ∧ clause ∈ Tree.allNames ((loadSet bytes).run ∅)) := by
  have hindent : Text.IsOneLine (Tree.blanks width) :=
    fun hbreak => absurd (Tree.mem_blanks hbreak) (by decide)
  refine ⟨?_, fun y depth clause hy hclause => clause_oneLine h hy hclause⟩
  rw [Tree.parts_text hindent]
  constructor
  · intro hunbroken name hname
    obtain ⟨e, he, hname⟩ := List.mem_flatMap.mp hname
    exact (hunbroken e he).names name hname
  · intro hnames e he
    refine ⟨fun name hname => hnames name (List.mem_flatMap.mpr ⟨e, he, hname⟩), ?_⟩
    intro clause hclause
    cases e with
    | field y depth =>
      rcases clause_oneLine h he hclause with hline | ⟨_, hname⟩
      · exact hline
      · exact hnames clause hname
    | beginFile | endFile | beginSection | beginMessage | endMessage | enum | service => cases hclause

/-- The bytes of a set with a default that has a line break in it. -/
def breakingSet : Bytes :=
  [0x0a, 0x1e, 0x0a, 0x07, 0x61, 0x2e, 0x70, 0x72, 0x6f, 0x74, 0x6f,
    0x22, 0x13, 0x0a, 0x01, 0x4d,
      0x12, 0x0e, 0x0a, 0x01, 0x73, 0x18, 0x01, 0x20, 0x01, 0x28, 0x09,
        0x3a, 0x03, 0x61, 0x0a, 0x62]

theorem loadSet_lines_breaking : (loadSet breakingSet).outcome = .ok 1 ∧
    Text.parts '\n' (Tree.text (Tree.blanks 4) ((loadSet breakingSet).run ∅)) =
      Tree.lines (Tree.blanks 4) ((loadSet breakingSet).run ∅) ++ [""] ∧
    ∀ y depth clause, Event.field y depth ∈ ((loadSet breakingSet).run ∅).events →
      y.defaultClause? = some clause → Text.IsOneLine clause ∨
        (y.kind = .enum ∧ clause ∈ Tree.allNames ((loadSet breakingSet).run ∅)) := by
  have hok : (loadSet breakingSet).outcome = .ok 1 := by decide +kernel
  have hnames : ∀ name ∈ Tree.allNames ((loadSet breakingSet).run ∅), Text.IsOneLine name := by
    decide +kernel
  obtain ⟨hparts, hclauses⟩ := loadSet_lines breakingSet 1 4 hok
  exact ⟨hok, hparts.mpr hnames, hclauses⟩

/-- The bytes of a set with a single message. The name of the message ends one message and begins another. -/
def forgingSet : Bytes :=
  [0x0a, 0x24, 0x0a, 0x07, 0x61, 0x2e, 0x70, 0x72, 0x6f, 0x74, 0x6f,
    0x22, 0x19, 0x0a, 0x17, 0x41, 0x20, 0x7b, 0x0a, 0x20, 0x20, 0x20, 0x20, 0x7d, 0x0a,
      0x20, 0x20, 0x20, 0x20, 0x6d, 0x65, 0x73, 0x73, 0x61, 0x67, 0x65, 0x20, 0x42]

/-- Lines can be forged by a name. -/
theorem forged_lines : ¬∀ (bytes : Bytes) (n width : Nat), (loadSet bytes).outcome = .ok n →
    Text.parts '\n' (Tree.text (Tree.blanks width) ((loadSet bytes).run ∅)) =
      Tree.lines (Tree.blanks width) ((loadSet bytes).run ∅) ++ [""] := by
  intro h
  have hok : (loadSet forgingSet).outcome = .ok 1 := by decide +kernel
  have hforged : Text.parts '\n' (Tree.text (Tree.blanks 4) ((loadSet forgingSet).run ∅)) ≠
      Tree.lines (Tree.blanks 4) ((loadSet forgingSet).run ∅) ++ [""] := by
    decide +kernel
  exact hforged (h forgingSet 1 4 hok)

end Loader
end SchemaTree
