import SchemaTree.Options.Interpret
import SchemaTree.Proofs.Descriptor.Decoded
import SchemaTree.Proofs.Descriptor.Reads
import SchemaTree.Proofs.Descriptor.Writable
import SchemaTree.Proofs.Options.Interpret

/-!
# Interpreted options can be written

Interpreting options ends with reading them from the wire, and a reader keeps each known option once, in
the form in which it is written. So every options message of an interpreted file can be written.
-/

namespace SchemaTree.Descriptor
open Wire (IsInt32 IsInt64)

/-! ### Uninterpreted options -/

theorem readUninterpreted?_writable {budget : Nat} {bs : Bytes} {o : UninterpretedOption}
    (h : readUninterpreted? budget bs = some o) : o.Writable := by
  have hstart : UninterpretedOption.Writable {} := ⟨by simp, by simp, by simp⟩
  refine readMessage?_keeps_inRange h hstart ?_
  intro o f o' hf ho h
  split at h
  case h_3 =>
    split at h
    · rename_i v hv
      cases Option.some.inj h
      rw [hv] at hf
      exact ⟨fun n hn => Option.some.inj hn ▸ hf, ho.negativeInt, ho.double⟩
    · cases h
  case h_4 =>
    split at h
    · rename_i v hv
      cases Option.some.inj h
      exact ⟨ho.positiveInt, fun n hn => Option.some.inj hn ▸ Wire.isInt64_int64 v, ho.double⟩
    · cases h
  case h_5 =>
    split at h
    · rename_i v hv
      cases Option.some.inj h
      rw [hv] at hf
      exact ⟨ho.positiveInt, ho.negativeInt, fun n hn => Option.some.inj hn ▸ hf⟩
    · cases h
  case h_6 =>
    split at h
    · cases Option.some.inj h
      exact ⟨ho.positiveInt, ho.negativeInt, ho.double⟩
    · cases h
  case h_8 =>
    rw [skip_eq_some h]
    exact ho
  all_goals
    obtain ⟨_, _, rfl⟩ := Option.map_eq_some_iff.mp h
    exact ⟨ho.positiveInt, ho.negativeInt, ho.double⟩

/-! ### Known options -/

/-- Reading what is kept of a value keeps it as it is. -/
theorem value?_kept {type : OptionType} {value kept : Wire.Value} (h : type.value? value = some kept) :
    type.value? kept = some kept := by
  cases type with
  | bool =>
    obtain ⟨flag, _, rfl⟩ := Option.map_eq_some_iff.mp h
    rw [OptionType.value?, flag?_flagValue, Option.map_some]
  | enum =>
    obtain ⟨n, hn, rfl⟩ := Option.map_eq_some_iff.mp h
    have hback : int32? (.varint (Wire.ofInt n)) = some n := int32?_numberValue (isInt32_of_int32? hn)
    rw [OptionType.value?, hback, Option.map_some]
  | text =>
    obtain ⟨s, _, rfl⟩ := Option.map_eq_some_iff.mp h
    rw [OptionType.value?, text?_textValue, Option.map_some]

theorem Options.Writable.set {target : Target} {options : Options} (h : options.Writable target)
    {number : Nat} {value : Wire.Value} (hvalue : IsKnown target (number, value)) :
    (options.set number value).Writable target := by
  have hsub : (options.known.filter (·.1 != number)).Sublist options.known := List.filter_sublist
  have hnew : number ∉ (options.known.filter (·.1 != number)).map (·.1) := by
    intro hmem
    obtain ⟨p, hp, hpn⟩ := List.mem_map.mp hmem
    have hne := (List.mem_filter.mp hp).2
    simp [hpn] at hne
  refine ⟨?_, ?_, h.uninterpreted⟩
  · rw [Options.set, List.map_append]
    refine List.nodup_append.mpr ⟨h.distinct.sublist (hsub.map _), by simp, ?_⟩
    intro a ha b hb
    rw [List.mem_singleton.mp hb]
    rintro rfl
    exact hnew ha
  · intro option hoption
    rcases List.mem_append.mp hoption with hoption | hoption
    · exact h.known option (hsub.subset hoption)
    · rw [List.mem_singleton.mp hoption]
      exact hvalue

/-- Options that are read can be written. -/
theorem readOptions?_writable {target : Target} {budget : Nat} {bs : Bytes} {options : Options}
    (h : readOptions? target {} budget bs = some options) : options.Writable target := by
  have hstart : Options.Writable target {} := ⟨List.nodup_nil, by simp, by simp⟩
  refine readMessage?_keeps h hstart ?_
  intro options f options' ho h
  split at h
  · obtain ⟨o, hread, rfl⟩ := Option.map_eq_some_iff.mp h
    obtain ⟨_, _, hread⟩ := embedded?_eq_some hread
    refine ⟨ho.distinct, ho.known, List.forall_mem_append.mpr ⟨ho.uninterpreted, ?_⟩⟩
    exact List.forall_mem_singleton.mpr (readUninterpreted?_writable hread)
  · split at h
    · rename_i type htype
      obtain ⟨value, hvalue, rfl⟩ := Option.map_eq_some_iff.mp h
      exact ho.set ⟨type, htype, value?_kept hvalue⟩
    · rw [skip_eq_some h]
      exact ho

end SchemaTree.Descriptor

/-! ### Interpreting -/

namespace SchemaTree.Options
open Descriptor

theorem interpret?_writable {c : Context} {target : Target} {type : MessageType}
    {options options' : Descriptor.Options} (h : c.interpret? target type options = some options') :
    options'.Writable target := by
  obtain ⟨_, _, h⟩ := Option.bind_eq_some_iff.mp h
  obtain ⟨_, _, h⟩ := Option.bind_eq_some_iff.mp h
  exact readOptions?_writable h

namespace Environment
variable {env : Environment}

theorem settle?_writable {target : Target} {scope : String} {options options' : Option Descriptor.Options}
    (h : env.settle? target scope options = some options') : OptionsWritable target options' := by
  intro o ho
  cases options with
  | none =>
    cases Option.some.inj h
    cases ho
  | some given =>
    simp only [settle?] at h
    split at h
    · obtain ⟨_, hinterpret, rfl⟩ := Option.map_eq_some_iff.mp h
      cases Option.some.inj ho
      exact interpret?_writable hinterpret
    · cases h

/-! ### Declarations -/

theorem settleField?_writable {scope : String} {x y : Field} (hx : x.Numbered)
    (h : env.settleField? scope x = some y) : y.Writable := by
  obtain ⟨_, hoptions, h⟩ := Option.bind_eq_some_iff.mp h
  cases Option.some.inj h
  exact ⟨⟨hx.number, hx.typeCode⟩, settle?_writable hoptions⟩

theorem settleExtension?_writable {scope : String} {x y : Field} (hx : x.ExtensionNumbered)
    (h : env.settleField? scope x = some y) : y.ExtensionWritable := by
  obtain ⟨_, hoptions, h⟩ := Option.bind_eq_some_iff.mp h
  cases Option.some.inj h
  exact ⟨⟨⟨hx.number, hx.typeCode⟩, hx.oneofIndex⟩, settle?_writable hoptions⟩

theorem settleEnum?_writable {scope : String} {e e' : Enum} (he : e.Numbered)
    (h : env.settleEnum? scope e = some e') : e'.Writable := by
  obtain ⟨values, hvalues, h⟩ := Option.bind_eq_some_iff.mp h
  obtain ⟨_, hoptions, h⟩ := Option.bind_eq_some_iff.mp h
  cases Option.some.inj h
  refine ⟨?_, settle?_writable hoptions, he.reservedRanges⟩
  refine forall_of_mapM hvalues he.values fun v v' hv hvv' => ?_
  obtain ⟨_, hoptions, hvv'⟩ := Option.bind_eq_some_iff.mp hvv'
  cases Option.some.inj hvv'
  exact ⟨hv, settle?_writable hoptions⟩

theorem settleService?_writable {scope : String} {s t : Service}
    (h : env.settleService? scope s = some t) : t.Writable := by
  obtain ⟨methods, hmethods, h⟩ := Option.bind_eq_some_iff.mp h
  obtain ⟨_, hoptions, h⟩ := Option.bind_eq_some_iff.mp h
  cases Option.some.inj h
  refine ⟨?_, settle?_writable hoptions⟩
  refine forall_of_mapM hmethods (fun _ _ => trivial) fun m m' _ hm => ?_
  obtain ⟨_, hoptions, hm⟩ := Option.bind_eq_some_iff.mp hm
  cases Option.some.inj hm
  exact settle?_writable hoptions

theorem settleMessage?_writable {fullName : String} {m m' : Message} (hm : m.Numbered)
    (hchoices : HasChoices m) (h : env.settleMessage? fullName m = some m') : m'.Writable := by
  obtain ⟨oneofs, honeofs, h⟩ := Option.bind_eq_some_iff.mp h
  obtain ⟨ranges, hranges, h⟩ := Option.bind_eq_some_iff.mp h
  obtain ⟨fields, hfields, h⟩ := Option.bind_eq_some_iff.mp h
  obtain ⟨extensions, hextensions, h⟩ := Option.bind_eq_some_iff.mp h
  obtain ⟨enums, henums, h⟩ := Option.bind_eq_some_iff.mp h
  obtain ⟨_, hoptions, h⟩ := Option.bind_eq_some_iff.mp h
  cases Option.some.inj h
  refine ⟨?fields, ?choices, ?extensions, ?enums, ?extensionRanges, ?oneofs, settle?_writable hoptions,
    hm.reservedRanges⟩
  case fields => exact forall_of_mapM hfields hm.fields fun _ _ => settleField?_writable
  case extensions => exact forall_of_mapM hextensions hm.extensions fun _ _ => settleExtension?_writable
  case enums => exact forall_of_mapM henums hm.enums fun _ _ => settleEnum?_writable
  case extensionRanges =>
    refine forall_of_mapM hranges hm.extensionRanges fun r r' hr hrr' => ?_
    obtain ⟨_, hoptions, hrr'⟩ := Option.bind_eq_some_iff.mp hrr'
    cases Option.some.inj hrr'
    exact ⟨hr, settle?_writable hoptions⟩
  case oneofs =>
    refine forall_of_mapM honeofs (fun _ _ => trivial) fun o o' _ ho => ?_
    obtain ⟨_, hoptions, ho⟩ := Option.bind_eq_some_iff.mp ho
    cases Option.some.inj ho
    exact settle?_writable hoptions
  case choices =>
    have hlength : oneofs.length = m.oneofs.length := (forall₂_of_mapM honeofs).length_eq.symm
    refine forall_of_mapM hfields hchoices fun x y hx hxy => ?_
    obtain ⟨_, rfl⟩ := settleField?_same hxy
    intro i hi
    show 0 ≤ i ∧ i < oneofs.length
    rw [hlength]
    exact hx i hi

theorem writable_with_messages {m : Message} (hm : m.Writable) (messages : List Message) :
    ({ m with messages } : Message).Writable :=
  ⟨hm.fields, hm.choices, hm.extensions, hm.enums, hm.extensionRanges, hm.oneofs, hm.options,
    hm.reservedRanges⟩

/-- A file whose numbers fit can be written once its options have been interpreted. -/
theorem settleFile?_writable {f g : File} (hf : f.Numbered)
    (hchoices : ∀ p ∈ f.messageTree, HasChoices p.2) (hpublic : ArePlaces f f.publicImports)
    (hweak : ArePlaces f f.weakImports) (h : env.settleFile? f = some g) : g.Writable := by
  have htree := (settleFile?_same h).2
  obtain ⟨messages, hmessages, h⟩ := Option.bind_eq_some_iff.mp h
  obtain ⟨enums, henums, h⟩ := Option.bind_eq_some_iff.mp h
  obtain ⟨services, hservices, h⟩ := Option.bind_eq_some_iff.mp h
  obtain ⟨extensions, hextensions, h⟩ := Option.bind_eq_some_iff.mp h
  obtain ⟨_, hoptions, h⟩ := Option.bind_eq_some_iff.mp h
  cases Option.some.inj h
  refine ⟨?messages, ?enums, ?services, ?extensions, settle?_writable hoptions, hpublic, hweak⟩
  case messages =>
    intro q hq
    obtain ⟨p, hp, -, m, hm, hqm⟩ := exists_of_forall₂_right htree hq
    rw [hqm]
    exact writable_with_messages (settleMessage?_writable (hf.messages p hp) (hchoices p hp) hm) _
  case enums => exact forall_of_mapM henums hf.enums fun _ _ => settleEnum?_writable
  case services => exact forall_of_mapM hservices (fun _ _ => trivial) fun _ _ _ => settleService?_writable
  case extensions => exact forall_of_mapM hextensions hf.extensions fun _ _ => settleExtension?_writable

end Environment
end SchemaTree.Options
