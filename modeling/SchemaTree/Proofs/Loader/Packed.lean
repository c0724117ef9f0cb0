import SchemaTree.Proofs.Loader.Fields
import SchemaTree.Proofs.Pool.FieldOptions

/-!
# Which fields are shown as packed

A repeated field of a numeric type, a flag or an enum is shown as packed if its options say so. Only a
field without any options is packed by its dialect: an option of another matter, which says nothing of
packing, makes a proto3 field count as not packed. What the options of a field from a source say is what is
written there, unless the schema declares the options of fields in a form of its own.
-/

namespace SchemaTree.Loader
open Descriptor (FieldsMatch File Options packedNumber)
open Schema (Dialect)

/-- Whether repeated values are packed under some options of a field, given its dialect and what options
pack. -/
def Packs (dialect : Dialect) (pack : Options → Bool) : Option Options → Prop
  | none => dialect = .proto3
  | some options => pack options = true

/-- A stored field with the name and the number of another one, and what decides whether it is shown as
packed. -/
structure PackedFrom (dialect : Dialect) (pack : Options → Bool) (x : Descriptor.Field)
    (y : Schema.Field) : Prop where
  name : y.name = x.name
  number : (y.number.toNat : Int) = x.number
  packed : y.marker = .packed ↔
    x.label = .repeated ∧ y.kind.isPackable = true ∧ Packs dialect pack x.options

/-- Whether interpreted options say that a field is packed. -/
def markedPacked (options : Options) : Bool := options.flag packedNumber

/-- Whether options as a call is given them say that a field is packed: those of a source by an option that
is written, those of a descriptor set by the one that is kept there. -/
def Call.packs : Call → Options → Bool
  | .file .. | .files .. => fun options => options.uninterpreted.any Options.setsPacked
  | .set _ | .setFile .. => markedPacked

/-! ### Compiled fields -/

theorem marker_eq_packed (y : Schema.Field) : y.marker = .packed ↔ y.isPacked = true := by
  unfold Schema.Field.marker
  split
  · simpa
  · rename_i h
    split <;> simp [h]

theorem isPacked_iff {ds : List Pool.Declaration} {dialect : Dialect} {x : Descriptor.Field}
    (hx : Pool.Typed ds x) : Snapshot.isPacked dialect x = true ↔ x.label = .repeated ∧
      (Schema.Kind.ofCode x.typeCode).isPackable = true ∧ Packs dialect markedPacked x.options := by
  rw [← Snapshot.isPackable_typed hx]
  simp only [Snapshot.isPacked, Options.Slot.isPacked, Options.Slot.isRepeated, Options.Slot.form,
    Bool.and_eq_true, decide_eq_true_eq, and_assoc]
  refine and_congr_right fun _ => and_congr_right fun _ => ?_
  cases x.options with
  | none => exact decide_eq_true_iff
  | some options => rfl

theorem FieldFrom.packed {dialect : Dialect} {x linked : Descriptor.Field} {y : Schema.Field}
    (h : FieldFrom dialect x linked y) : PackedFrom dialect markedPacked x y := by
  obtain ⟨ds, file, scope, htyped, hsnapshot⟩ := h.snapshot
  obtain ⟨_, _, hresolves⟩ := h.resolves
  obtain ⟨-, -, hlabel, -⟩ := Pool.resolveType?_same hresolves
  obtain ⟨hname, hnumber⟩ := h.same
  refine ⟨hname, hnumber, ?_⟩
  obtain ⟨_, _, hsnapshot⟩ := bind_eq_ok hsnapshot
  cases hsnapshot
  rw [marker_eq_packed, ← hlabel, ← Pool.resolveType?_options hresolves]
  exact isPacked_iff htyped

/-! ### From options as they are written -/

/-- A declared field and a compiled one whose options say of packing what those of the declared one say. -/
structure PackingKept (pack : Options → Bool) (x z : Descriptor.Field) : Prop extends KeptField x z where
  packing : ∀ o ∈ x.options, ∀ o' ∈ z.options, markedPacked o' = pack o

theorem PackingKept.packed {pack : Options → Bool} {dialect : Dialect} {x z : Descriptor.Field}
    {y : Schema.Field} (h : PackingKept pack x z) (hy : PackedFrom dialect markedPacked z y) :
    PackedFrom dialect pack x y := by
  obtain ⟨hname, hnumber, hlabel, -⟩ := h.same
  have hpacks : Packs dialect markedPacked z.options ↔ Packs dialect pack x.options := by
    have hnone := h.options
    have hpacking := h.packing
    cases hx : x.options with
    | none =>
      rw [hnone.mpr hx]
      exact Iff.rfl
    | some o =>
      cases hz : z.options with
      | none =>
        rw [hnone.mp hz] at hx
        cases hx
      | some o' => rw [Packs, Packs, hpacking o hx o' hz]
  exact ⟨hy.name.trans hname, hy.number.trans hnumber, by rw [hy.packed, hlabel, hpacks]⟩

theorem packingKept_refl (x : Descriptor.Field) : PackingKept markedPacked x x := by
  refine ⟨⟨⟨rfl, rfl, rfl, rfl⟩, Iff.rfl⟩, fun o ho o' ho' => ?_⟩
  cases Option.some.inj (ho.symm.trans ho')
  rfl

/-- What compiling makes of a declared file with the declarations of a pool. -/
def CompilesWithin (pool : Pool) (d c : File) : Prop :=
  ∃ (view : Pool.View) (env : Options.Environment) (e : File), Pool.resolveFile? view d = some e ∧
    env.settleFile? e = some c ∧ env.standard = Pool.standard ∧ ∀ x ∈ env.declarations, x ∈ pool.declarations

/-- In a pool of compiled files every declaration belongs to one of them, and each of them was compiled with
no others. -/
structure CompiledWithin (config : Config) (disk : Disk) (pool : Pool) : Prop where
  declared : ∀ x ∈ pool.declarations, ∃ f ∈ pool.files, x ∈ Pool.declarationsOf f
  settled : ∀ f ∈ pool.files, ∃ c ∈ pool.settled, ∃ env : Options.Environment, env.settleFile? f = some c
  sources : ComeFrom (declared? config disk) (CompilesWithin pool) pool.settled

theorem compiledWithin_keptByJoining (config : Config) (disk : Disk) :
    KeptByJoining config disk (CompiledWithin config disk) := by
  intro pool linked d hd hlink h
  obtain ⟨resolved, settled, hj⟩ := Pool.link?_joined hlink
  refine ⟨?declared, ?settled, ?sources⟩
  case declared =>
    rw [hj.declarations, hj.files]
    intro x hx
    rcases List.mem_append.mp hx with hx | hx
    · obtain ⟨f, hf, hx⟩ := h.declared x hx
      exact ⟨f, List.mem_append_left _ hf, hx⟩
    · obtain ⟨f, hf, hx⟩ := List.mem_flatMap.mp hx
      exact ⟨f, List.mem_append_right _ hf, hx⟩
  case settled =>
    rw [hj.files, hj.settledFiles]
    intro f hf
    rcases List.mem_append.mp hf with hf | hf
    · obtain ⟨c, hc, henv⟩ := h.settled f hf
      exact ⟨c, List.mem_append_left _ hc, henv⟩
    · obtain ⟨c, hc, env, _, _, hfc⟩ := exists_of_forall₂_right hj.settles.flip hf
      exact ⟨c, List.mem_append_right _ hc, env, hfc⟩
  case sources =>
    intro c hc
    rw [hj.settledFiles] at hc
    rcases List.mem_append.mp hc with hc | hc
    · obtain ⟨d', hd', view, env, e, hde, hec, hstandard, hwithin⟩ := h.sources c hc
      refine ⟨d', hd', view, env, e, hde, hec, hstandard, fun x hx => ?_⟩
      rw [hj.declarations]
      exact List.mem_append_left _ (hwithin x hx)
    · obtain ⟨e, he, env, hdeclarations, hstandard, hec⟩ := exists_of_forall₂_right hj.settles hc
      obtain ⟨d', hd', view, _, hde⟩ := exists_of_forall₂_right hj.resolves he
      cases List.mem_singleton.mp hd'
      have hname : c.name = d.name := CompilesTo.name_eq ⟨view, env, e, hde, hec⟩
      exact ⟨d, by rw [hname, hd], view, env, e, hde, hec, hstandard, fun x hx => hdeclarations ▸ hx⟩

theorem CompiledWithin.usual {config : Config} {disk : Disk} {pool : Pool}
    (h : CompiledWithin config disk pool) (husual : ∀ c ∈ pool.settled, UsualFile c) :
    Options.Usual pool.declarations := by
  intro x hx
  obtain ⟨f, hf, hx⟩ := h.declared x hx
  obtain ⟨c, hc, env, hfc⟩ := h.settled f hf
  exact (UsualFile.of_settled hfc (husual c hc)).declarations x hx

theorem packingKept_of_settled {view : Pool.View} {env : Options.Environment} {scope scope' : String}
    {x y z : Descriptor.Field} (hxy : Pool.resolveType? view scope x = some y)
    (hyz : env.settleField? scope' y = some z) (hdeclared : Options.Usual env.declarations)
    (hstandard : Options.Usual env.standard) (hunread : Source.Unread x.options) :
    PackingKept (fun options => options.uninterpreted.any Options.setsPacked) x z := by
  refine ⟨keptField_of_settled hxy hyz, fun o ho o' ho' => ?_⟩
  obtain ⟨options, hsettle, hyz⟩ := Option.bind_eq_some_iff.mp hyz
  cases Option.some.inj hyz
  rw [Pool.resolveType?_options hxy, Option.mem_def.mp ho] at hsettle
  dsimp only at ho'
  rw [Option.mem_def.mp ho'] at hsettle
  exact Options.Environment.settle?_packed hdeclared hstandard (hunread o ho) hsettle

/-- Options are compiled to what is written of packing. -/
theorem CompilesWithin.packingKept {pool : Pool} {d c : File} (h : CompilesWithin pool d c)
    (husual : Options.Usual pool.declarations)
    (hunread : ∀ p ∈ d.messageTree, ∀ x ∈ p.2.fields, Source.Unread x.options) :
    FieldsMatch (PackingKept fun options => options.uninterpreted.any Options.setsPacked) d c := by
  obtain ⟨view, env, e, hde, hec, hstandard, hwithin⟩ := h
  refine forall₂_imp_of_mem ((Pool.resolveFile?_fields hde).comp (Options.settleFile?_fields hec)) ?_
  rintro p hp q ⟨hname, hfields⟩
  refine ⟨hname, forall₂_imp_of_mem hfields ?_⟩
  rintro x hx z ⟨y, ⟨_, hxy⟩, _, hyz⟩
  refine packingKept_of_settled hxy hyz ?_ (hstandard ▸ standard_usual) (hunread p hp x hx)
  exact fun x hx => husual x (hwithin x hx)

theorem compiledSet_packingKept (config : Config) (disk : Disk) (paths : List String)
    (husual : ∀ c ∈ compiledSet config disk paths, UsualFile c) :
    ComeFrom (declared? config disk)
      (FieldsMatch (PackingKept fun options => options.uninterpreted.any Options.setsPacked))
      (compiledSet config disk paths) := by
  unfold compiledSet at husual ⊢
  cases hcompile : (compile config disk {} paths).2 with
  | error failure => exact List.forall_mem_nil _
  | ok c =>
    rw [hcompile] at husual
    have hstart : CompiledWithin config disk {} :=
      ⟨List.forall_mem_nil _, List.forall_mem_nil _, List.forall_mem_nil _⟩
    have hwithin := compile_keeps (compiledWithin_keptByJoining config disk) hstart hcompile
    intro file hfile
    obtain ⟨d, hd, hcompiles⟩ := hwithin.sources file hfile
    refine ⟨d, hd, hcompiles.packingKept (hwithin.usual husual) ?_⟩
    unfold declared? at hd
    split at hd
    · exact Source.read?_unread hd
    · cases hd

/-- Each file of a call says of packing what the declared file says. -/
theorem Call.compiled_packingKept {call : Call} {pool : Pool} {names : List String}
    (h : call.plan = .ok (pool, names)) (husual : ∀ c ∈ call.compiled, UsualFile c) :
    ComeFrom call.declared? (FieldsMatch (PackingKept call.packs)) call.compiled := by
  have hset (hcompiles : ∀ d c, call.Compiles d c → FieldsMatch (PackingKept call.packs) d c) :
      ComeFrom call.declared? (FieldsMatch (PackingKept call.packs)) call.compiled := by
    intro c hc
    obtain ⟨d, hd, hdc⟩ := call.compiled_comesFrom h c hc
    exact ⟨d, hd, hcompiles d c hdc⟩
  have hsame (d c : File) (hdc : d = c) : FieldsMatch (PackingKept markedPacked) d c := by
    rw [← hdc]
    exact (FieldsMatch.refl d).imp fun x y hxy => hxy ▸ packingKept_refl x
  cases call with
  | file config disk path => exact compiledSet_packingKept config disk [path] husual
  | files config disk paths => exact compiledSet_packingKept config disk paths husual
  | set bytes => exact hset hsame
  | setFile disk path => exact hset hsame

/-- A field is shown as packed if its options, as they are compiled, say so. The dialect decides only for
a field that is declared without options. If the files declare the options of fields as usual, or not at
all, the options of a field are compiled to what is declared of packing. -/
theorem fields_packed (call : Call) (name : String) (file : Schema.File)
    (h : (name, file) ∈ call.load.stores) : ∃ d, call.declared? name = some d ∧
      ∃ c ∈ call.compiled, c.name = name ∧
        call.Compiles d c ∧ FieldsMatch KeptField d c ∧
        List.Forall₂ (fun p m => m.fullName = p.1 ∧
          ∀ y ∈ m.fields, ∃ x ∈ p.2.fields, PackedFrom file.dialect markedPacked x y)
          c.messageTree file.messageTree ∧
        ((∀ c ∈ call.compiled, UsualFile c) →
          List.Forall₂ (fun p m => m.fullName = p.1 ∧
            ∀ y ∈ m.fields, ∃ x ∈ p.2.fields, PackedFrom file.dialect call.packs x y)
            d.messageTree file.messageTree) := by
  obtain ⟨d, hd, c, hc, hname, hcompiles, hfields⟩ := call.stored_fields h
  have hpacked : List.Forall₂ (fun p m => m.fullName = p.1 ∧
      ∀ y ∈ m.fields, ∃ x ∈ p.2.fields, PackedFrom file.dialect markedPacked x y)
      c.messageTree file.messageTree := by
    refine shown_imp ?_ hfields
    rintro x y ⟨linked, hlinked⟩
    exact hlinked.packed
  refine ⟨d, hd, c, hc, hname, hcompiles, hcompiles.fields, hpacked, fun husual => ?_⟩
  obtain ⟨pool, names, _, hplan, _⟩ := call.stored_plan h
  obtain ⟨d', hd', hkept⟩ := call.compiled_packingKept hplan husual c hc
  rw [hname, hd] at hd'
  cases hd'
  exact shown_comp hkept (fun x z y hxz hzy => hxz.packed hzy) hpacked

/-- A proto3 source of repeated fields of numbers and flags, with and without options, and of a text. -/
def packings : Call :=
  .file { contents := [("a.proto", "syntax = \"proto3\"; message M \x7b " ++
    "repeated int32 a = 1 [deprecated = true]; repeated int32 b = 2 [deprecated = true, packed = true]; " ++
    "repeated bool c = 3 [packed = false]; repeated bool d = 4; string e = 5; \x7d")] } {} "a.proto"

/-- The file that `packings` stores. -/
def packingsFile : Schema.File :=
  ⟨"a.proto", .proto3, "", [],
    [⟨"M", "M",
      [⟨"a", 1, .int32, false, false, .int32 0, none⟩, ⟨"b", 2, .int32, false, true, .int32 0, none⟩,
        ⟨"c", 3, .bool, false, false, .bool false, none⟩, ⟨"d", 4, .bool, false, true, .bool false, none⟩,
        ⟨"e", 5, .string, false, false, .string "", none⟩], [], []⟩], [], []⟩

theorem packings_stored : ("a.proto", packingsFile) ∈ packings.load.stores := by decide +kernel

theorem fields_packed_mixed : ("a.proto", packingsFile) ∈ packings.load.stores ∧
    (∀ c ∈ packings.compiled, UsualFile c) ∧
    ∃ d, packings.declared? "a.proto" = some d ∧
      ∃ c ∈ packings.compiled, c.name = "a.proto" ∧
        packings.Compiles d c ∧ FieldsMatch KeptField d c ∧
        List.Forall₂ (fun p m => m.fullName = p.1 ∧
          ∀ y ∈ m.fields, ∃ x ∈ p.2.fields, PackedFrom packingsFile.dialect markedPacked x y)
          c.messageTree packingsFile.messageTree ∧
        ((∀ c ∈ packings.compiled, UsualFile c) →
          List.Forall₂ (fun p m => m.fullName = p.1 ∧
            ∀ y ∈ m.fields, ∃ x ∈ p.2.fields, PackedFrom packingsFile.dialect packings.packs x y)
            d.messageTree packingsFile.messageTree) :=
  ⟨packings_stored, by decide +kernel, fields_packed packings "a.proto" packingsFile packings_stored⟩

/-- A proto3 source of a repeated field of numbers whose only option is that it is deprecated. -/
def deprecated : Call :=
  .file { contents := [("a.proto",
    "syntax = \"proto3\"; message M \x7b repeated int32 a = 1 [deprecated = true]; \x7d")] } {} "a.proto"

/-- The file that `deprecated` stores. -/
def deprecatedFile : Schema.File :=
  ⟨"a.proto", .proto3, "", [], [⟨"M", "M", [⟨"a", 1, .int32, false, false, .int32 0, none⟩], [], []⟩], [], []⟩

theorem deprecated_stored : ("a.proto", deprecatedFile) ∈ deprecated.load.stores := by decide +kernel

/-- Whether options of a field say anything of packing. -/
def saysPacked (options : Options) : Bool :=
  (options.known.lookup packedNumber).isSome ||
    options.uninterpreted.any fun o => o.name = [⟨"packed", false⟩]

/-- A proto3 field that does not say whether it is packed need not be shown as packed. -/
theorem packed_lost :
    ¬∀ (call : Call) (name : String) (file : Schema.File) (d : Descriptor.File)
        (p : String × Descriptor.Message) (m : Schema.Message) (x : Descriptor.Field)
        (y : Schema.Field),
      (name, file) ∈ call.load.stores → call.declared? name = some d → file.dialect = .proto3 →
      p ∈ d.messageTree → m ∈ file.messageTree → m.fullName = p.1 →
      x ∈ p.2.fields → y ∈ m.fields → y.name = x.name →
      x.label = .repeated → y.kind.isPackable = true → x.options.any saysPacked = false →
        y.marker = .packed := by
  intro h
  have hdeclared : (deprecated.declared? "a.proto").any (fun d => d.messageTree.any fun p =>
      p.1 = "M" && p.2.fields.any fun x =>
        x.name = "a" && x.label = .repeated && !x.options.any saysPacked) = true := by
    decide +kernel
  simp only [Option.any_eq_true, List.any_eq_true, Bool.and_eq_true, decide_eq_true_eq,
    Bool.not_eq_true'] at hdeclared
  obtain ⟨d, hd, p, hp, hname, x, hx, ⟨hxname, hlabel⟩, hsays⟩ := hdeclared
  have hmarker := h deprecated "a.proto" deprecatedFile d p _ x _ deprecated_stored hd rfl hp
    List.mem_cons_self hname.symm hx List.mem_cons_self hxname.symm hlabel rfl hsays
  cases hmarker

end SchemaTree.Loader
