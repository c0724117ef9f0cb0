import SchemaTree.Proofs.Loader.Origin
import SchemaTree.Proofs.Snapshot.Kinds

/-!
# Where stored fields come from

Compiling and linking keep the fields of a message in their order. Each field is changed on its own:
resolving settles its type, and interpreting replaces its options.
-/

namespace SchemaTree

/-! ### Fields changed one by one -/

namespace Descriptor

/-- Files with messages under the same full names, in which the fields correspond one by one. -/
def FieldsMatch (R : Field → Field → Prop) (f g : File) : Prop :=
  List.Forall₂ (fun p q => q.1 = p.1 ∧ List.Forall₂ R p.2.fields q.2.fields) f.messageTree g.messageTree

variable {R S : Field → Field → Prop} {f g h : File}

theorem FieldsMatch.refl (f : File) : FieldsMatch (· = ·) f f :=
  List.forall₂_same.mpr fun _ _ => ⟨rfl, List.forall₂_same.mpr fun _ _ => rfl⟩

theorem FieldsMatch.imp (h : FieldsMatch R f g) (himp : ∀ x y, R x y → S x y) : FieldsMatch S f g :=
  List.Forall₂.imp (fun _ _ ⟨hname, hfields⟩ => ⟨hname, hfields.imp himp⟩) h

theorem FieldsMatch.comp (hR : FieldsMatch R f g) (hS : FieldsMatch S g h) :
    FieldsMatch (fun x z => ∃ y, R x y ∧ S y z) f h := by
  refine (forall₂_comp hR hS).imp ?_
  rintro p r ⟨q, ⟨hname, hfields⟩, hname', hfields'⟩
  exact ⟨hname'.trans hname, forall₂_comp hfields hfields'⟩

theorem FieldsMatch.of_changed {step : String → Message → Option Message}
    (h : List.Forall₂ (Changed step) f.messageTree g.messageTree)
    (hstep : ∀ fullName m m', step fullName m = some m' → List.Forall₂ R m.fields m'.fields) :
    FieldsMatch R f g := by
  refine h.imp ?_
  rintro p q ⟨hname, m, hm, hq⟩
  have hfields := hstep _ _ _ hm
  rw [hq]
  exact ⟨hname, hfields⟩

end Descriptor

open Descriptor (Field File FieldsMatch)

theorem Pool.resolveFile?_fields {view : Pool.View} {f g : File}
    (h : Pool.resolveFile? view f = some g) :
    FieldsMatch (fun x y => ∃ scope, Pool.resolveType? view scope x = some y) f g := by
  obtain ⟨_, _, _, htree, _, _, _⟩ := Pool.resolveFile?_eq_some h
  refine .of_changed htree fun fullName m m' hm => ?_
  obtain ⟨_, _, hfields, _, rfl⟩ := Pool.resolveMessage?_eq_some hm
  exact hfields.imp fun x y hxy => ⟨fullName, hxy⟩

theorem Options.settleFile?_fields {env : Options.Environment} {f g : File}
    (h : env.settleFile? f = some g) :
    FieldsMatch (fun x y => ∃ scope, env.settleField? scope x = some y) f g := by
  refine .of_changed (Options.Environment.settleFile?_same h).2 fun fullName m m' hm => ?_
  exact (Options.Environment.settleMessage?_same hm).2.imp fun x y hxy => ⟨fullName, hxy⟩

namespace Loader

/-! ### Compiled fields -/

/-- A declared field and a compiled one of the same name, number, label and default, which has options if
the declared one has. -/
structure KeptField (x z : Field) : Prop where
  same : Pool.SameField x z
  options : z.options = none ↔ x.options = none

theorem keptField_of_settled {view : Pool.View} {env : Options.Environment} {scope scope' : String}
    {x y z : Field} (hxy : Pool.resolveType? view scope x = some y)
    (hyz : env.settleField? scope' y = some z) : KeptField x z := by
  obtain ⟨options, hsettle, hyz⟩ := Option.bind_eq_some_iff.mp hyz
  cases Option.some.inj hyz
  have hsame : Pool.SameField x y := Pool.resolveType?_same hxy
  rw [Pool.resolveType?_options hxy] at hsettle
  exact ⟨hsame, Options.Environment.settle?_eq_none hsettle⟩

theorem CompilesTo.fields {d c : File} (h : CompilesTo d c) : FieldsMatch KeptField d c := by
  obtain ⟨view, env, e, hde, hec⟩ := h
  refine ((Pool.resolveFile?_fields hde).comp (Options.settleFile?_fields hec)).imp ?_
  rintro x z ⟨y, ⟨_, hxy⟩, _, hyz⟩
  exact keptField_of_settled hxy hyz

theorem Call.Compiles.fields {call : Call} {d c : File} (h : call.Compiles d c) :
    FieldsMatch KeptField d c := by
  have hsame (h : d = c) : FieldsMatch KeptField d c := by
    rw [← h]
    exact (FieldsMatch.refl d).imp fun x y hxy => hxy ▸ ⟨⟨rfl, rfl, rfl, rfl⟩, Iff.rfl⟩
  cases call with
  | file _ _ _ => exact CompilesTo.fields h
  | files _ _ _ => exact CompilesTo.fields h
  | set _ => exact hsame h
  | setFile _ _ => exact hsame h

/-! ### Stored fields -/

section
variable {R : Field → Field → Prop} {S T : Field → Schema.Field → Prop} {f g : File}
  {messages : List Schema.Message}

theorem shown_imp (himp : ∀ x y, S x y → T x y)
    (h : List.Forall₂ (fun p m => m.fullName = p.1 ∧ ∀ y ∈ m.fields, ∃ x ∈ p.2.fields, S x y)
      f.messageTree messages) :
    List.Forall₂ (fun p m => m.fullName = p.1 ∧ ∀ y ∈ m.fields, ∃ x ∈ p.2.fields, T x y)
      f.messageTree messages := by
  refine h.imp ?_
  rintro p m ⟨hname, hm⟩
  refine ⟨hname, fun y hy => ?_⟩
  obtain ⟨x, hx, hxy⟩ := hm y hy
  exact ⟨x, hx, himp x y hxy⟩

/-- What is shown of the fields of a file is shown of those they correspond to. -/
theorem shown_comp (hmatch : FieldsMatch R f g) (hcomp : ∀ x z y, R x z → S z y → T x y)
    (h : List.Forall₂ (fun p m => m.fullName = p.1 ∧ ∀ y ∈ m.fields, ∃ x ∈ p.2.fields, S x y)
      g.messageTree messages) :
    List.Forall₂ (fun p m => m.fullName = p.1 ∧ ∀ y ∈ m.fields, ∃ x ∈ p.2.fields, T x y)
      f.messageTree messages := by
  refine (forall₂_comp hmatch h).imp ?_
  rintro p m ⟨q, ⟨hqname, hfields⟩, hmname, hm⟩
  refine ⟨hmname.trans hqname, fun y hy => ?_⟩
  obtain ⟨z, hz, hzy⟩ := hm y hy
  obtain ⟨x, hx, hxz⟩ := exists_of_forall₂_right hfields hz
  exact ⟨x, hx, hcomp x z y hxz hzy⟩

end

/-- A compiled field and what is stored for it, a snapshot of the field after it was resolved. -/
structure FieldFrom (dialect : Schema.Dialect) (x linked : Field) (y : Schema.Field) : Prop where
  resolves : ∃ view scope, Pool.resolveType? view scope x = some linked
  number : Pool.isFieldNumber linked.number = true
  snapshot : ∃ ds file scope, Pool.Typed ds linked ∧
    Snapshot.field ds file scope dialect linked = .ok y

/-- The messages of a stored file are those of a compiled file, and each of their fields comes from a
compiled field. -/
theorem Call.stored_fields {call : Call} {name : String} {file : Schema.File}
    (h : (name, file) ∈ call.load.stores) : ∃ d, call.declared? name = some d ∧
      ∃ c ∈ call.compiled, c.name = name ∧ call.Compiles d c ∧
        List.Forall₂ (fun p m => m.fullName = p.1 ∧ ∀ y ∈ m.fields, ∃ x ∈ p.2.fields, ∃ linked,
          FieldFrom file.dialect x linked y) c.messageTree file.messageTree := by
  obtain ⟨pool, names, f, hplan, hf, rfl, hsnapshot⟩ := call.stored_plan h
  have hlink := call.plan_links hplan
  obtain ⟨resolved, settled, hj⟩ := Pool.link?_joined hlink
  have hfiles : pool.files = resolved := hj.files
  obtain ⟨c, hc, _, _, hcf⟩ := exists_of_forall₂_right hj.resolves (hfiles ▸ hf)
  obtain ⟨d, hd, hcompiles⟩ := call.compiled_comesFrom hplan c hc
  have hname := Pool.resolveFile?_name hcf
  have hdialect : file.dialect = Pool.dialectOf f := by
    obtain ⟨_, _, hfile⟩ := bind_eq_ok hsnapshot
    cases hfile
    rfl
  refine ⟨d, by rw [hname, hd], c, hc, hname.symm, hcompiles, ?_⟩
  have hlinked := forall₂_and_mem (Snapshot.file_shown hsnapshot).2
  refine (forall₂_comp (Pool.resolveFile?_fields hcf) hlinked).imp ?_
  rintro p m ⟨q, ⟨hname, hpq⟩, hqm, hq, -⟩
  refine ⟨by rw [hqm.fullName, hname], fun y hy => ?_⟩
  obtain ⟨linked, hin, hsnapshot⟩ := exists_of_forall₂_right hqm.fields hy
  have hin := (Snapshot.orderedFields_perm _).mem_iff.mp hin
  obtain ⟨x, hx, scope, hresolves⟩ := exists_of_forall₂_right hpq hin
  refine ⟨x, hx, linked, ⟨_, scope, hresolves⟩, (Pool.numbers_of_message hlink hf hq).2 linked hin, ?_⟩
  rw [hdialect]
  exact ⟨_, _, _, Pool.typed_of_field hlink hf hq hin, hsnapshot⟩

theorem FieldFrom.same {dialect : Schema.Dialect} {x linked : Field} {y : Schema.Field}
    (h : FieldFrom dialect x linked y) : y.name = x.name ∧ (y.number.toNat : Int) = x.number := by
  obtain ⟨_, _, _, _, hsnapshot⟩ := h.snapshot
  obtain ⟨_, _, hresolves⟩ := h.resolves
  obtain ⟨hname, hnumber, -, -⟩ := Pool.resolveType?_same hresolves
  obtain ⟨hyname, hynumber⟩ := Snapshot.field_same hsnapshot h.number
  exact ⟨hyname.trans hname, hynumber.trans hnumber⟩

end Loader
end SchemaTree
