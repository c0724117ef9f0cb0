import SchemaTree.Pool.Link
import SchemaTree.Proofs.Descriptor.Bare
import SchemaTree.Proofs.Options.Interpret
import SchemaTree.Proofs.Pool.Reference

/-!
# Linked files

What holds of the files that `link?` has taken into a pool: they are the given files in the given
order under distinct names, and every field with the code of enums names an enum that has values.
-/

namespace SchemaTree.Pool
open Descriptor

/-! ### One step of linking -/

theorem resolveAll?_eq_some {pool : Pool} {new resolved : List File}
    (h : pool.resolveAll? new = some resolved) :
    List.Forall₂ (fun f g => ∃ view : View,
      view.declarations = pool.declarations ++ new.flatMap declarationsOf ∧
        resolveFile? view f = some g) new resolved := by
  simp only [resolveAll?] at h
  split at h
  · exact (forall₂_of_mapM h).imp fun f g hfg => ⟨_, rfl, hfg⟩
  · cases h

/-- A pool after some files have joined another one: the files with resolved references, and with
interpreted options, stand after those that were there. -/
structure Joined (pool : Pool) (new : List File) (linked : Pool) (resolved settled : List File) :
    Prop where
  names : canJoin pool.files new = true
  resolves : List.Forall₂ (fun f g => ∃ view : View,
    view.declarations = pool.declarations ++ new.flatMap declarationsOf ∧
      resolveFile? view f = some g) new resolved
  valid : ∀ f ∈ resolved, isValidFile linked.declarations f = true
  settles : List.Forall₂ (fun f g => ∃ env : Options.Environment, env.declarations = linked.declarations ∧
    env.standard = standard ∧ env.settleFile? f = some g) resolved settled
  files : linked.files = pool.files ++ resolved
  settledFiles : linked.settled = pool.settled ++ settled
  declarations : linked.declarations = pool.declarations ++ resolved.flatMap declarationsOf

theorem link?_joined {pool linked : Pool} {new : List File} (h : pool.link? new = some linked) :
    ∃ resolved settled, Joined pool new linked resolved settled := by
  unfold link? at h
  split at h
  · cases h
  · rename_i hjoin
    obtain ⟨resolved, hresolved, h⟩ := Option.bind_eq_some_iff.mp h
    dsimp only at h
    split at h
    · cases h
    · rename_i hvalid
      obtain ⟨settled, hsettled, h⟩ := Option.bind_eq_some_iff.mp h
      cases Option.some.inj h
      refine ⟨resolved, settled, ?_, resolveAll?_eq_some hresolved, ?_, ?_, rfl, rfl, rfl⟩
      · simpa using hjoin
      · simpa using hvalid
      · exact (forall₂_of_mapM hsettled).imp fun f g hfg => ⟨_, rfl, rfl, hfg⟩

theorem Joined.resolved_names {pool linked : Pool} {new resolved settled : List File}
    (h : Joined pool new linked resolved settled) : resolved.map (·.name) = new.map (·.name) :=
  map_eq_of_forall₂ h.resolves fun _ _ ⟨_, _, hfg⟩ => resolveFile?_name hfg

theorem Joined.settled_names {pool linked : Pool} {new resolved settled : List File}
    (h : Joined pool new linked resolved settled) : settled.map (·.name) = new.map (·.name) := by
  rw [← h.resolved_names]
  exact map_eq_of_forall₂ h.settles fun _ _ ⟨_, _, _, hfg⟩ =>
    (Options.Environment.settleFile?_same hfg).1

/-- A file that has joined is one of the given files, under the same name and with the same fields. -/
theorem Joined.resolved_source {pool linked : Pool} {new resolved settled : List File}
    (h : Joined pool new linked resolved settled) {g : File} (hg : g ∈ resolved) :
    ∃ f ∈ new, g.name = f.name ∧ g.layout = f.layout := by
  obtain ⟨f, hf, _, _, hfg⟩ := exists_of_forall₂_right h.resolves hg
  exact ⟨f, hf, resolveFile?_name hfg, resolveFile?_layout hfg⟩

theorem Joined.settled_source {pool linked : Pool} {new resolved settled : List File}
    (h : Joined pool new linked resolved settled) {g : File} (hg : g ∈ settled) :
    ∃ f ∈ new, g.name = f.name ∧ g.layout = f.layout := by
  obtain ⟨r, hr, _, _, _, hrg⟩ := exists_of_forall₂_right h.settles hg
  obtain ⟨f, hf, hname, hlayout⟩ := h.resolved_source hr
  refine ⟨f, hf, ?_, ?_⟩
  · rw [(Options.Environment.settleFile?_same hrg).1, hname]
  · rw [Options.Environment.settleFile?_layout hrg, hlayout]

theorem Joined.nodup {pool linked : Pool} {new resolved settled : List File}
    (h : Joined pool new linked resolved settled) : (linked.files.map (·.name)).Nodup := by
  have hjoin := h.names
  simp only [canJoin, Bool.and_eq_true, decide_eq_true_eq] at hjoin
  rw [h.files, List.map_append, h.resolved_names, ← List.map_append]
  exact hjoin.1

/-! ### Pools linked at once -/

theorem link?_names {pool : Pool} {new : List File} (h : ({} : Pool).link? new = some pool) :
    pool.files.map (·.name) = new.map (·.name) := by
  obtain ⟨resolved, settled, hj⟩ := link?_joined h
  rw [hj.files]
  exact hj.resolved_names

theorem link?_nodup {pool : Pool} {new : List File} (h : ({} : Pool).link? new = some pool) :
    (new.map (·.name)).Nodup := by
  obtain ⟨resolved, settled, hj⟩ := link?_joined h
  rw [← link?_names h]
  exact hj.nodup

/-- Each file of a pool is one of those it was linked from, under the same name and with the same
fields. -/
theorem link?_source {pool : Pool} {new : List File} (h : ({} : Pool).link? new = some pool)
    {f : File} (hf : f ∈ pool.files) : ∃ g ∈ new, f.name = g.name ∧ f.layout = g.layout := by
  obtain ⟨resolved, settled, hj⟩ := link?_joined h
  have hfiles : pool.files = resolved := hj.files
  rw [hfiles] at hf
  exact hj.resolved_source hf

/-- In a linked pool every message satisfies the rules on declarations. -/
theorem message_isValid {pool : Pool} {new : List File} (h : ({} : Pool).link? new = some pool)
    {f : File} (hf : f ∈ pool.files) {p : String × Message} (hp : p ∈ f.messageTree) :
    isValidMessage pool.declarations (dialectOf f) p.2 = true := by
  obtain ⟨resolved, settled, hj⟩ := link?_joined h
  have hfiles : pool.files = resolved := hj.files
  rw [hfiles] at hf
  have hvalid := hj.valid f hf
  simp only [isValidFile, Bool.and_eq_true, List.all_eq_true] at hvalid
  exact hvalid.1.1 p hp

/-- In a linked pool the fields of a message have valid numbers, no two of them the same. -/
theorem numbers_of_message {pool : Pool} {new : List File} (h : ({} : Pool).link? new = some pool)
    {f : File} (hf : f ∈ pool.files) {p : String × Message} (hp : p ∈ f.messageTree) :
    (p.2.fields.map (·.number)).Nodup ∧ ∀ x ∈ p.2.fields, isFieldNumber x.number = true := by
  have hmessage := message_isValid h hf hp
  simp only [isValidMessage, hasValidNumbers, Bool.and_eq_true, decide_eq_true_eq,
    List.all_eq_true] at hmessage
  refine ⟨hmessage.1.1.1.1.1.1, ?_⟩
  intro x hx
  have hnumber := hmessage.1.1.1.1.1.2 x hx
  simp only [hasValidNumber, Bool.and_eq_true] at hnumber
  exact hnumber.1.1

/-- In a linked pool the default of every field can be read. -/
theorem default_of_message {pool : Pool} {new : List File} (h : ({} : Pool).link? new = some pool)
    {f : File} (hf : f ∈ pool.files) {p : String × Message} (hp : p ∈ f.messageTree) :
    ∀ x ∈ p.2.fields, hasValidDefault pool.declarations x = true := by
  have hmessage := message_isValid h hf hp
  simp only [isValidMessage, Bool.and_eq_true, List.all_eq_true] at hmessage
  exact hmessage.1.1.2

/-! ### Enums of a linked pool -/

/-- All enums that a file declares, in its messages and outside them. -/
def enumsOf (f : File) : List Enum := f.enums ++ f.messageTree.flatMap (·.2.enums)

theorem mem_enumEntries {scope name : String} {enums : List Enum} {e : Enum}
    (h : (name, Entry.enum e) ∈ enums.flatMap (enumEntries scope)) : (name, e) ∈ namedEnums scope enums := by
  obtain ⟨e', he', h⟩ := List.mem_flatMap.mp h
  simp only [enumEntries, List.mem_cons, List.mem_map, Prod.mk.injEq, Entry.enum.injEq, reduceCtorEq,
    and_false, exists_false, or_false] at h
  obtain ⟨rfl, rfl⟩ := h
  exact List.mem_map.mpr ⟨e, he', rfl⟩

theorem enum_mem_enumTree {f : File} {name : String} {e : Enum} (h : (name, Entry.enum e) ∈ entries f) :
    (name, e) ∈ f.enumTree := by
  simp only [entries, List.mem_append] at h
  rcases h with (((h | h) | h) | h) | h
  · obtain ⟨_, _, h⟩ := List.mem_map.mp h
    cases h
  · obtain ⟨p, hp, h⟩ := List.mem_flatMap.mp h
    simp only [messageEntries, List.mem_append, List.mem_cons, List.mem_map, extensionEntries,
      Prod.mk.injEq, reduceCtorEq, and_false, exists_false, false_or, or_false] at h
    exact List.mem_append_left _ (List.mem_flatMap.mpr ⟨p, hp, mem_enumEntries h⟩)
  · exact List.mem_append_right _ (mem_enumEntries h)
  · obtain ⟨_, _, h⟩ := List.mem_map.mp h
    cases h
  · obtain ⟨s, hs, h⟩ := List.mem_flatMap.mp h
    simp [serviceEntries] at h

theorem mem_enumsOf {f : File} {name : String} {e : Enum} (h : (name, e) ∈ f.enumTree) :
    e ∈ enumsOf f := by
  rcases List.mem_append.mp h with h | h
  · obtain ⟨p, hp, h⟩ := List.mem_flatMap.mp h
    obtain ⟨e', he', h⟩ := List.mem_map.mp h
    cases h
    exact List.mem_append_right _ (List.mem_flatMap.mpr ⟨p, hp, he'⟩)
  · obtain ⟨e', he', h⟩ := List.mem_map.mp h
    cases h
    exact List.mem_append_left _ he'

theorem values_ne_nil {ds : List Declaration} {f : File} (h : isValidFile ds f = true) {e : Enum}
    (he : e ∈ enumsOf f) : e.values ≠ [] := by
  have key {dialect : Schema.Dialect} (h : isValidEnum dialect e = true) : e.values ≠ [] := by
    intro hnil
    simp [isValidEnum, hnil] at h
  simp only [isValidFile, isValidMessage, Bool.and_eq_true, List.all_eq_true] at h
  rcases List.mem_append.mp he with he | he
  · exact key (h.1.2 e he)
  · obtain ⟨p, hp, he⟩ := List.mem_flatMap.mp he
    exact key ((h.1.1 p hp).2 e he)

/-! ### Declarations of a linked pool -/

/-- The declarations that the files were resolved among, and those of the pool, are the same but for
their contents. -/
theorem Joined.bare_declarations {pool linked : Pool} {new resolved settled : List File}
    (h : Joined pool new linked resolved settled) :
    linked.declarations.map Declaration.bare =
      (pool.declarations ++ new.flatMap declarationsOf).map Declaration.bare := by
  rw [h.declarations, List.map_append, List.map_append, List.map_flatMap, List.map_flatMap]
  exact congrArg _ <| flatMap_eq_of_forall₂ h.resolves fun _ _ ⟨_, _, hfg⟩ =>
    declarationsOf_resolved hfg

theorem link?_declarations {pool : Pool} {new : List File} (h : ({} : Pool).link? new = some pool) :
    pool.declarations = pool.files.flatMap declarationsOf := by
  obtain ⟨resolved, settled, hj⟩ := link?_joined h
  rw [show pool.files = resolved from hj.files]
  exact hj.declarations

/-- What a name stands for in a linked pool is declared in one of the files. -/
theorem find?_declared {pool : Pool} {new : List File} (h : ({} : Pool).link? new = some pool)
    {name : String} {d : Declaration} (hd : find? pool.declarations name = some d) :
    ∃ f ∈ pool.files, (name, d.entry) ∈ entries f := by
  have hname : d.name = name := by simpa using List.find?_some hd
  have hmem := List.mem_of_find?_eq_some hd
  rw [link?_declarations h] at hmem
  obtain ⟨f, hf, hmem⟩ := List.mem_flatMap.mp hmem
  obtain ⟨entry, hin, rfl⟩ := List.mem_map.mp hmem
  exact ⟨f, hf, hname ▸ hin⟩

/-- A field of a linked file is a scalar, or it names an enum or a message of the pool. -/
theorem typed_of_field {pool : Pool} {new : List File} (h : ({} : Pool).link? new = some pool)
    {f : File} (hf : f ∈ pool.files) {p : String × Message} (hp : p ∈ f.messageTree) {x : Field}
    (hx : x ∈ p.2.fields) : Typed pool.declarations x := by
  obtain ⟨resolved, settled, hj⟩ := link?_joined h
  have hfiles : pool.files = resolved := hj.files
  rw [hfiles] at hf
  obtain ⟨g, hg, view, hview, hgf⟩ := exists_of_forall₂_right hj.resolves hf
  obtain ⟨_, _, _, htree, _, _, _⟩ := resolveFile?_eq_some hgf
  obtain ⟨q, hq, -, m, hm, hpm⟩ := exists_of_forall₂_right htree hp
  obtain ⟨fields, _, hfields, _, rfl⟩ := resolveMessage?_eq_some hm
  rw [hpm] at hx
  obtain ⟨y, hy, hyx⟩ := exists_of_forall₂_right hfields hx
  exact (resolveType?_typed hyx).of_bare (by rw [hview, hj.bare_declarations])

theorem enum?_eq_some {ds : List Declaration} {name : String} {e : Enum}
    (h : enum? ds name = some e) : ∃ d, find? ds name = some d ∧ d.entry = .enum e := by
  unfold enum? at h
  split at h
  · rename_i hfind
    cases Option.some.inj h
    exact ⟨_, hfind, rfl⟩
  · cases h

theorem enum?_declared {pool : Pool} {new : List File} (h : ({} : Pool).link? new = some pool)
    {name : String} {e : Enum} (he : enum? pool.declarations name = some e) :
    ∃ f ∈ pool.files, (name, e) ∈ f.enumTree := by
  obtain ⟨d, hd, hentry⟩ := enum?_eq_some he
  obtain ⟨f, hf, hin⟩ := find?_declared h hd
  rw [hentry] at hin
  exact ⟨f, hf, enum_mem_enumTree hin⟩

/-- In a linked pool a field with the code of enums names an enum that has values. -/
theorem enum_of_field {pool : Pool} {new : List File} (h : ({} : Pool).link? new = some pool)
    {f : File} (hf : f ∈ pool.files) {p : String × Message} (hp : p ∈ f.messageTree) {x : Field}
    (hx : x ∈ p.2.fields) (hcode : x.typeCode = enumCode) :
    ∃ e, enum? pool.declarations (referent x.typeName) = some e ∧ e.values ≠ [] := by
  obtain ⟨e, he⟩ := (typed_of_field h hf hp hx).enum_of_code hcode
  refine ⟨e, he, ?_⟩
  obtain ⟨resolved, settled, hj⟩ := link?_joined h
  have hfiles : pool.files = resolved := hj.files
  obtain ⟨g, hg, hin⟩ := enum?_declared h he
  exact values_ne_nil (hj.valid g (hfiles ▸ hg)) (mem_enumsOf hin)

end SchemaTree.Pool
