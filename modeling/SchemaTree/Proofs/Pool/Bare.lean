import SchemaTree.Proofs.Descriptor.Bare
import SchemaTree.Proofs.Pool.Link

/-!
# Linking keeps bare files

Linking a file resolves its references and interprets its options, and the bare file stays the same.
Each file of a linked pool is thus, but for references and options, one of those it was linked from.
-/

namespace SchemaTree

open Descriptor

/-! ### Resolving -/

namespace Pool

theorem resolveType?_bare {view : View} {scope : String} {x y : Field}
    (h : resolveType? view scope x = some y) : y.bare = x.bare := by
  unfold resolveType? at h
  split at h
  · obtain ⟨_, _, rfl⟩ := Option.map_eq_some_iff.mp h
    rfl
  · obtain ⟨_, _, rfl⟩ := Option.map_eq_some_iff.mp h
    rfl

theorem resolveExtension?_bare {view : View} {scope : String} {x y : Field}
    (h : resolveExtension? view scope x = some y) : y.bare = x.bare := by
  obtain ⟨_, _, h⟩ := Option.bind_eq_some_iff.mp h
  exact (resolveType?_bare h).trans rfl

theorem resolveMessage?_keepsSurface (view : View) : KeepsSurface (resolveMessage? view) := by
  intro fullName m m' h
  obtain ⟨fields, extensions, hfields, hextensions, rfl⟩ := resolveMessage?_eq_some h
  have hf : fields.map Field.bare = m.fields.map Field.bare :=
    map_eq_of_forall₂ hfields fun _ _ hxy => resolveType?_bare hxy
  have he : extensions.map Field.bare = m.extensions.map Field.bare :=
    map_eq_of_forall₂ hextensions fun _ _ hxy => resolveExtension?_bare hxy
  simp only [Message.surface, hf, he]

theorem resolveMethod?_bare {view : View} {scope : String} {m m' : Method}
    (h : resolveMethod? view scope m = some m') : m'.bare = m.bare := by
  obtain ⟨_, _, h⟩ := Option.bind_eq_some_iff.mp h
  obtain ⟨_, _, h⟩ := Option.bind_eq_some_iff.mp h
  cases Option.some.inj h
  rfl

theorem resolveService?_bare {view : View} {scope : String} {s t : Service}
    (h : resolveService? view scope s = some t) : t.bare = s.bare := by
  obtain ⟨methods, hmethods, h⟩ := Option.bind_eq_some_iff.mp h
  cases Option.some.inj h
  have hm := map_eq_of_mapM Method.bare hmethods fun _ _ hm => resolveMethod?_bare hm
  simp only [Service.bare, hm]

theorem resolveFile?_bare {view : View} {f g : File} (h : resolveFile? view f = some g) :
    g.bare = f.bare := by
  obtain ⟨messages, hmessages, h⟩ := Option.bind_eq_some_iff.mp h
  obtain ⟨services, hservices, h⟩ := Option.bind_eq_some_iff.mp h
  obtain ⟨extensions, hextensions, h⟩ := Option.bind_eq_some_iff.mp h
  cases Option.some.inj h
  have hm := bare_traverseAll? (resolveMessage?_keepsSurface view) _ _ _ hmessages
  have hs := map_eq_of_mapM Service.bare hservices fun _ _ hst => resolveService?_bare hst
  have he := map_eq_of_mapM Field.bare hextensions fun _ _ hxy => resolveExtension?_bare hxy
  simp only [File.bare, hm, hs, he]

end Pool

/-! ### Interpreting options -/

namespace Options.Environment

variable {env : Environment}

theorem settleField?_bare {scope : String} {x y : Field} (h : env.settleField? scope x = some y) :
    y.bare = x.bare := by
  obtain ⟨_, rfl⟩ := settleField?_same h
  rfl

theorem settleEnum?_bare {scope : String} {e e' : Enum} (h : env.settleEnum? scope e = some e') :
    e'.bare = e.bare := by
  obtain ⟨values, hvalues, h⟩ := Option.bind_eq_some_iff.mp h
  obtain ⟨_, _, h⟩ := Option.bind_eq_some_iff.mp h
  cases Option.some.inj h
  have hv := map_eq_of_mapM EnumValue.bare hvalues fun v v' hv => by
    obtain ⟨_, _, hv⟩ := Option.bind_eq_some_iff.mp hv
    cases Option.some.inj hv
    rfl
  simp only [Enum.bare, hv]

theorem settleService?_bare {scope : String} {s t : Service}
    (h : env.settleService? scope s = some t) : t.bare = s.bare := by
  obtain ⟨methods, hmethods, h⟩ := Option.bind_eq_some_iff.mp h
  obtain ⟨_, _, h⟩ := Option.bind_eq_some_iff.mp h
  cases Option.some.inj h
  have hm := map_eq_of_mapM Method.bare hmethods fun m m' hm => by
    obtain ⟨_, _, hm⟩ := Option.bind_eq_some_iff.mp hm
    cases Option.some.inj hm
    rfl
  simp only [Service.bare, hm]

theorem settleMessage?_keepsSurface (env : Environment) : KeepsSurface env.settleMessage? := by
  intro fullName m m' h
  obtain ⟨oneofs, honeofs, h⟩ := Option.bind_eq_some_iff.mp h
  obtain ⟨ranges, hranges, h⟩ := Option.bind_eq_some_iff.mp h
  obtain ⟨fields, hfields, h⟩ := Option.bind_eq_some_iff.mp h
  obtain ⟨extensions, hextensions, h⟩ := Option.bind_eq_some_iff.mp h
  obtain ⟨enums, henums, h⟩ := Option.bind_eq_some_iff.mp h
  obtain ⟨_, _, h⟩ := Option.bind_eq_some_iff.mp h
  cases Option.some.inj h
  have ho := map_eq_of_mapM Oneof.bare honeofs fun o o' ho => by
    obtain ⟨_, _, ho⟩ := Option.bind_eq_some_iff.mp ho
    cases Option.some.inj ho
    rfl
  have hr := map_eq_of_mapM ExtensionRange.bare hranges fun r r' hr => by
    obtain ⟨_, _, hr⟩ := Option.bind_eq_some_iff.mp hr
    cases Option.some.inj hr
    rfl
  have hf := map_eq_of_mapM Field.bare hfields fun _ _ hxy => settleField?_bare hxy
  have hx := map_eq_of_mapM Field.bare hextensions fun _ _ hxy => settleField?_bare hxy
  have he := map_eq_of_mapM Enum.bare henums fun _ _ he => settleEnum?_bare he
  simp only [Message.surface, ho, hr, hf, hx, he]

theorem settleFile?_bare {f g : File} (h : env.settleFile? f = some g) : g.bare = f.bare := by
  obtain ⟨messages, hmessages, h⟩ := Option.bind_eq_some_iff.mp h
  obtain ⟨enums, henums, h⟩ := Option.bind_eq_some_iff.mp h
  obtain ⟨services, hservices, h⟩ := Option.bind_eq_some_iff.mp h
  obtain ⟨extensions, hextensions, h⟩ := Option.bind_eq_some_iff.mp h
  obtain ⟨_, _, h⟩ := Option.bind_eq_some_iff.mp h
  cases Option.some.inj h
  have hm := bare_traverseAll? env.settleMessage?_keepsSurface _ _ _ hmessages
  have he := map_eq_of_mapM Enum.bare henums fun _ _ he => settleEnum?_bare he
  have hs := map_eq_of_mapM Service.bare hservices fun _ _ hst => settleService?_bare hst
  have hx := map_eq_of_mapM Field.bare hextensions fun _ _ hxy => settleField?_bare hxy
  simp only [File.bare, hm, he, hs, hx]

end Options.Environment

/-! ### Linked files -/

namespace Pool

theorem dialectOf_of_bare {f g : File} (h : f.bare = g.bare) : dialectOf f = dialectOf g := by
  have hdialect := congrArg File.dialect h
  have hbare (f : File) : f.bare.dialect = f.dialect := rfl
  rw [hbare, hbare] at hdialect
  rw [dialectOf, dialectOf, hdialect]

/-- The files that join a pool are the given ones in their order, but for references. -/
theorem Joined.resolved_bare {pool linked : Pool} {new resolved settled : List File}
    (h : Joined pool new linked resolved settled) : resolved.map File.bare = new.map File.bare :=
  map_eq_of_forall₂ h.resolves fun _ _ ⟨_, _, hfg⟩ => resolveFile?_bare hfg

theorem link?_bare {pool : Pool} {new : List File} (h : ({} : Pool).link? new = some pool) :
    pool.files.map File.bare = new.map File.bare := by
  obtain ⟨resolved, settled, hj⟩ := link?_joined h
  rw [show pool.files = resolved from hj.files]
  exact hj.resolved_bare

end Pool
end SchemaTree
