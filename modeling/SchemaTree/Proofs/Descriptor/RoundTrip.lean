import SchemaTree.Proofs.Descriptor.Reads
import SchemaTree.Proofs.Descriptor.Writable

/-!
# Descriptor sets are read as they are written

Reading what was written of a declaration that can be written gives the declaration back, as long as its
parts are nested no deeper than the reader follows and its sizes fit on the wire.
-/

namespace SchemaTree.Descriptor
open Wire (IsTag IsInt32)

/-! ### Options -/

theorem namePart_readsBack (part : NamePart) : ReadsBack readNamePart? flat NamePart.bytes part := by
  intro budget _ hsize
  refine readMessage?_of_reads ?_ hsize
  refine .cons (reads_text (by decide) rfl rfl) ?_
  exact reads_flag (by decide) rfl rfl

theorem uninterpreted_readsBack {o : UninterpretedOption} (ho : o.Writable) :
    ReadsBack readUninterpreted? UninterpretedOption.depth UninterpretedOption.bytes o := by
  intro budget hdepth hsize
  refine readMessage?_of_reads ?_ hsize
  simp only [List.append_assoc]
  refine .append (reads_embedded ({ · with name := · }) (by decide)
    (fun part _ => namePart_readsBack part) hdepth (fun _ _ => rfl) rfl rfl) ?_
  refine .append (reads_optional ({ · with identifier := · })
    (fun _ _ => reads_text (by decide) rfl rfl) rfl rfl) ?_
  refine .append (reads_optional ({ · with positiveInt := · })
    (fun n hn => reads_value (by decide) (ho.positiveInt n hn) rfl) rfl rfl) ?_
  refine .append (reads_optional ({ · with negativeInt := · })
    (fun n hn => reads_value (by decide) (Wire.ofInt_lt n) ?_) rfl rfl) ?_
  · simp only [Wire.int64_ofInt (ho.negativeInt n hn)]
  refine .append (reads_optional ({ · with double := · })
    (fun n hn => reads_value (by decide) (ho.double n hn) rfl) rfl rfl) ?_
  refine .append (reads_optional ({ · with string := · })
    (fun _ _ => reads_bytes (by decide) fun _ => rfl) rfl rfl) ?_
  exact reads_optional ({ · with aggregate := · }) (fun _ _ => reads_text (by decide) rfl rfl) rfl rfl

/-! ### Known options -/

theorem isTag_of_known {target : Target} :
    ∀ option ∈ target.known, IsTag option.1 ∧ option.1 ≠ uninterpretedNumber := by
  cases target <;> decide

theorem isTag_of_lookup {target : Target} {number : Nat} {type : OptionType}
    (h : target.known.lookup number = some type) : IsTag number ∧ number ≠ uninterpretedNumber := by
  obtain ⟨before, after, hlist, _⟩ := List.lookup_eq_some_iff.mp h
  have hmem : (number, type) ∈ target.known := by
    rw [hlist]
    exact List.mem_append_right before List.mem_cons_self
  exact isTag_of_known _ hmem

theorem reads_option {step : α → Wire.Field → Option α} {number : Nat} {a b : α} {type : OptionType}
    {value : Wire.Value} (htag : IsTag number) (hvalue : type.value? value = some value)
    (h : step a ⟨number, value⟩ = some b) : Reads step [⟨number, value⟩] a b := by
  cases type with
  | bool =>
    obtain ⟨flag, _, rfl⟩ := Option.map_eq_some_iff.mp hvalue
    exact reads_value htag (flagValue_fits flag) h
  | enum =>
    obtain ⟨n, _, rfl⟩ := Option.map_eq_some_iff.mp hvalue
    exact reads_value htag (Wire.ofInt_lt n) h
  | text =>
    obtain ⟨s, _, rfl⟩ := Option.map_eq_some_iff.mp hvalue
    exact reads_bytes htag fun _ => h

theorem set_of_new {options : Options} {number : Nat} {value : Wire.Value}
    (h : number ∉ options.known.map (·.1)) :
    options.set number value = { options with known := options.known ++ [(number, value)] } := by
  have hfilter : options.known.filter (·.1 != number) = options.known := by
    refine List.filter_eq_self.mpr fun p hp => ?_
    have hne : p.1 ≠ number := fun heq => h (heq ▸ List.mem_map_of_mem hp)
    simpa using hne
  rw [Options.set, hfilter]

/-- Known options with numbers of their own are read one after the other. -/
theorem reads_known (target : Target) {step : Options → Wire.Field → Option Options}
    {known done : List (Nat × Wire.Value)}
    (hstep : ∀ options number type value, target.known.lookup number = some type →
      step options ⟨number, value⟩ = (type.value? value).map (options.set number))
    (hknown : ∀ option ∈ known, IsKnown target option) (hdistinct : ((done ++ known).map (·.1)).Nodup) :
    Reads step (known.map fun (number, value) => ⟨number, value⟩) { known := done }
      { known := done ++ known } := by
  induction known generalizing done with
  | nil =>
    rw [List.append_nil]
    exact reads_nil
  | cons option known ih =>
    obtain ⟨number, value⟩ := option
    obtain ⟨⟨type, htype, hvalue⟩, hrest⟩ := List.forall_mem_cons.mp hknown
    have hnew : number ∉ done.map (·.1) := by
      rw [List.map_append, List.map_cons] at hdistinct
      exact fun hmem => (List.nodup_append.mp hdistinct).2.2 _ hmem _ List.mem_cons_self rfl
    have htag : IsTag number := (isTag_of_lookup htype).1
    have hread : step { known := done } ⟨number, value⟩ =
        some { known := done ++ [(number, value)] } := by
      rw [hstep _ _ _ _ htype, hvalue, Option.map_some, set_of_new hnew]
    have happend : done ++ (number, value) :: known = (done ++ [(number, value)]) ++ known := by
      rw [List.append_assoc, List.singleton_append]
    rw [happend] at hdistinct ⊢
    exact (reads_option htag hvalue hread).cons (ih hrest hdistinct)

theorem options_readsBack {target : Target} {options : Options} (h : options.Writable target) :
    ReadsBack (readOptions? target {}) Options.depth Options.encoded options := by
  intro budget hdepth hsize
  obtain ⟨known, uninterpreted⟩ := options
  refine readMessage?_of_reads ?_ hsize
  refine .append (reads_known target ?_ h.known h.distinct) ?_
  · intro options number type value hlookup
    have hne := (isTag_of_lookup hlookup).2
    simp only [if_neg hne, hlookup]
  exact reads_embedded ({ · with uninterpreted := · }) (by decide)
    (fun o ho => uninterpreted_readsBack (h.uninterpreted o ho)) hdepth (fun _ _ => rfl) rfl rfl

theorem reads_optionsField {step : α → Wire.Field → Option α} {a b : α} {number budget : Nat}
    {target : Target} {options : Option Options} (update : α → Option Options → α) (htag : IsTag number)
    (hoptions : OptionsWritable target options) (hdepth : optionsDepth options ≤ budget)
    (h : ∀ o : Options, step a ⟨number, .bytes o.encoded⟩ =
      (mergeOptions? target none budget (.bytes o.encoded)).map (update a))
    (ha : update a none = a) (hb : update a options = b) : Reads step (optionsField number options) a b := by
  subst hb
  cases options with
  | none =>
    rw [ha]
    exact reads_nil
  | some o =>
    refine reads_bytes htag fun hsize => ?_
    have hback := options_readsBack (hoptions o rfl)
    have hread := embedded?_of_readsBack hback (levelsIn_le.mp hdepth o List.mem_cons_self) hsize
    rw [h o, mergeOptions?, Option.getD_none, hread]
    rfl

/-! ### Fields and choices -/

theorem reads_label {step : Field → Wire.Field → Option Field} {d : Field} {label : Label}
    (h : ∀ value, step d ⟨4, value⟩ = (int32? value).map fun n => { d with label := .ofCode n }) :
    Reads step [⟨4, numberValue label.code⟩] d { d with label } := by
  cases label <;> exact reads_number (by decide) (by decide) (h _) rfl

theorem field_readsBack {d : Field} (hd : d.Writable) (hindex : ∀ i ∈ d.oneofIndex, IsInt32 i) :
    ReadsBack readField? Field.depth Field.encoded d := by
  intro budget hdepth hsize
  refine readMessage?_of_reads ?_ hsize
  simp only [Field.wireFields, List.append_assoc, List.cons_append, List.nil_append]
  refine .cons (reads_text (by decide) rfl rfl) ?_
  refine .append (reads_optional ({ · with extendee := · })
    (fun _ _ => reads_text (by decide) rfl rfl) rfl rfl) ?_
  refine .cons (reads_number (by decide) hd.number rfl rfl) ?_
  refine .cons (reads_label fun _ => rfl) ?_
  refine .cons (reads_number (by decide) hd.typeCode rfl rfl) ?_
  refine .append (reads_textField ({ · with typeName := · }) (by decide) rfl rfl rfl) ?_
  refine .append (reads_optional ({ · with defaultText := · })
    (fun _ _ => reads_text (by decide) rfl rfl) rfl rfl) ?_
  refine .append (reads_optionsField ({ · with options := · }) (by decide) hd.options hdepth
    (fun _ => rfl) rfl rfl) ?_
  refine .append (reads_optional ({ · with oneofIndex := · })
    (fun i hi => reads_number (by decide) (hindex i hi) rfl rfl) rfl rfl) ?_
  refine .append (reads_optional ({ · with jsonName := · })
    (fun _ _ => reads_text (by decide) rfl rfl) rfl rfl) ?_
  exact reads_flagField ({ · with isProto3Optional := · }) (by decide) rfl rfl rfl

theorem extension_readsBack {d : Field} (hd : d.ExtensionWritable) :
    ReadsBack readField? Field.depth Field.encoded d := by
  refine field_readsBack ⟨hd.toNumbered, hd.options⟩ fun i hi => ?_
  rw [hd.oneofIndex] at hi
  cases hi

theorem oneof_readsBack {d : Oneof} (hd : OptionsWritable .oneof d.options) :
    ReadsBack readOneof? Oneof.depth Oneof.encoded d := by
  intro budget hdepth hsize
  refine readMessage?_of_reads ?_ hsize
  refine .cons (reads_text (by decide) rfl rfl) ?_
  exact reads_optionsField ({ · with options := · }) (by decide) hd hdepth (fun _ => rfl) rfl rfl

/-! ### Ranges, enums and services -/

theorem range_readsBack {d : Range} (hd : d.Numbered) : ReadsBack readRange? flat Range.encoded d := by
  intro budget _ hsize
  refine readMessage?_of_reads ?_ hsize
  refine .cons (reads_number (by decide) hd.first rfl rfl) ?_
  exact reads_number (by decide) hd.stop rfl rfl

theorem extensionRange_readsBack {d : ExtensionRange} (hd : d.Writable) :
    ReadsBack readExtensionRange? ExtensionRange.depth ExtensionRange.encoded d := by
  intro budget hdepth hsize
  refine readMessage?_of_reads ?_ hsize
  refine .cons (reads_number (by decide) hd.range.first rfl rfl) ?_
  refine .cons (reads_number (by decide) hd.range.stop rfl rfl) ?_
  exact reads_optionsField ({ · with options := · }) (by decide) hd.options hdepth (fun _ => rfl) rfl rfl

theorem enumValue_readsBack {d : EnumValue} (hd : d.Writable) :
    ReadsBack readEnumValue? EnumValue.depth EnumValue.encoded d := by
  intro budget hdepth hsize
  refine readMessage?_of_reads ?_ hsize
  refine .cons (reads_text (by decide) rfl rfl) ?_
  refine .cons (reads_number (by decide) hd.number rfl rfl) ?_
  exact reads_optionsField ({ · with options := · }) (by decide) hd.options hdepth (fun _ => rfl) rfl rfl

theorem enum_readsBack {d : Enum} (hd : d.Writable) : ReadsBack readEnum? Enum.depth Enum.encoded d := by
  intro budget hdepth hsize
  simp only [Enum.depth, Nat.max_le] at hdepth
  obtain ⟨hvalues, hoptions, hranges⟩ := hdepth
  refine readMessage?_of_reads ?_ hsize
  simp only [Enum.wireFields, List.append_assoc, List.cons_append, List.nil_append]
  refine .cons (reads_text (by decide) rfl rfl) ?_
  refine .append (reads_embedded ({ · with values := · }) (by decide)
    (fun v hv => enumValue_readsBack (hd.values v hv)) hvalues (fun _ _ => rfl) rfl rfl) ?_
  refine .append (reads_optionsField ({ · with options := · }) (by decide) hd.options hoptions
    (fun _ => rfl) rfl rfl) ?_
  refine .append (reads_embedded ({ · with reservedRanges := · }) (by decide)
    (fun r hr => range_readsBack (hd.reservedRanges r hr)) hranges (fun _ _ => rfl) rfl rfl) ?_
  exact reads_texts ({ · with reservedNames := · }) (by decide) (fun _ _ => rfl) rfl rfl

theorem method_readsBack {d : Method} (hd : OptionsWritable .method d.options) :
    ReadsBack readMethod? Method.depth Method.encoded d := by
  intro budget hdepth hsize
  refine readMessage?_of_reads ?_ hsize
  simp only [Method.wireFields, List.append_assoc, List.cons_append, List.nil_append]
  refine .cons (reads_text (by decide) rfl rfl) ?_
  refine .cons (reads_text (by decide) rfl rfl) ?_
  refine .cons (reads_text (by decide) rfl rfl) ?_
  refine .append (reads_optionsField ({ · with options := · }) (by decide) hd hdepth
    (fun _ => rfl) rfl rfl) ?_
  refine .append (reads_flagField ({ · with clientStreaming := · }) (by decide) rfl rfl rfl) ?_
  exact reads_flagField ({ · with serverStreaming := · }) (by decide) rfl rfl rfl

theorem service_readsBack {d : Service} (hd : d.Writable) :
    ReadsBack readService? Service.depth Service.encoded d := by
  intro budget hdepth hsize
  obtain ⟨hmethods, hoptions⟩ := Nat.max_le.mp hdepth
  refine readMessage?_of_reads ?_ hsize
  simp only [Service.wireFields, List.cons_append, List.nil_append]
  refine .cons (reads_text (by decide) rfl rfl) ?_
  refine .append (reads_embedded ({ · with methods := · }) (by decide)
    (fun m hm => method_readsBack (hd.methods m hm)) hmethods (fun _ _ => rfl) rfl rfl) ?_
  exact reads_optionsField ({ · with options := · }) (by decide) hd.options hoptions (fun _ => rfl) rfl rfl

/-! ### Messages -/

theorem readDeclaredMessage?_eq (budget : Nat) (bs : Bytes) : readDeclaredMessage? budget bs =
    readMessage? (readMessageField? budget fun b => embedded? budget (.bytes b) readDeclaredMessage?)
      {} bs := by
  cases budget <;> rfl

theorem Message.nestedFields_eq (ms : List Message) :
    Message.nestedFields ms = embeddedFields 3 Message.encoded ms := by
  induction ms with
  | nil => rfl
  | cons m ms ih =>
    rw [Message.nestedFields, ih]
    rfl

theorem isInt32_of_place {i : Int} {count : Nat} (hi : 0 ≤ i ∧ i < count) (hcount : count ≤ placeLimit) :
    IsInt32 i := by
  have hlimit : placeLimit = 2147483648 := rfl
  constructor
  · omega
  · omega

/-- Whether the messages of a tree have no more choices than positions can tell apart. -/
def FewChoices (tree : List (String × Message)) : Prop := ∀ p ∈ tree, p.2.oneofs.length ≤ placeLimit

mutual

theorem message_readsBack : ∀ (scope : String) (d : Message),
    (∀ p ∈ Message.tree scope d, p.2.Writable) → FewChoices (Message.tree scope d) →
      ReadsBack readDeclaredMessage? Message.depth Message.encoded d
  | scope, ⟨name, fields, extensions, messages, enums, extensionRanges, oneofs, options,
      reservedRanges, reservedNames⟩, h, hchoices => by
    intro budget hdepth hsize
    obtain ⟨hd, hnested⟩ := List.forall_mem_cons.mp h
    obtain ⟨hfew, hrest⟩ := List.forall_mem_cons.mp hchoices
    have hmessages := messages_readBack (qualify scope name) messages hnested hrest
    have hindices : ∀ x ∈ fields, ∀ i ∈ x.oneofIndex, IsInt32 i :=
      fun x hx i hi => isInt32_of_place (hd.choices x hx i hi) hfew
    simp only [Message.depth, Message.partsDepth, Message.nestedDepth_eq, Nat.max_le] at hdepth
    obtain ⟨hdmessages, hdfields, hdenums, hdranges, hdextensions, hdoptions, hdoneofs, hdreserved⟩ :=
      hdepth
    rw [readDeclaredMessage?_eq]
    refine readMessage?_of_reads ?_ hsize
    simp only [Message.wireFields, Message.nestedFields_eq, List.append_assoc, List.cons_append,
      List.nil_append]
    refine .cons (reads_text (by decide) rfl rfl) ?_
    refine .append (reads_embedded ({ · with fields := · }) (by decide)
      (fun x hx => field_readsBack (hd.fields x hx) (hindices x hx)) hdfields (fun _ _ => rfl) rfl rfl) ?_
    refine .append (reads_embedded ({ · with messages := · }) (by decide) hmessages hdmessages
      (fun _ _ => rfl) rfl rfl) ?_
    refine .append (reads_embedded ({ · with enums := · }) (by decide)
      (fun e he => enum_readsBack (hd.enums e he)) hdenums (fun _ _ => rfl) rfl rfl) ?_
    refine .append (reads_embedded ({ · with extensionRanges := · }) (by decide)
      (fun r hr => extensionRange_readsBack (hd.extensionRanges r hr)) hdranges (fun _ _ => rfl)
      rfl rfl) ?_
    refine .append (reads_embedded ({ · with extensions := · }) (by decide)
      (fun x hx => extension_readsBack (hd.extensions x hx)) hdextensions (fun _ _ => rfl) rfl rfl) ?_
    refine .append (reads_optionsField ({ · with options := · }) (by decide) hd.options hdoptions
      (fun _ => rfl) rfl rfl) ?_
    refine .append (reads_embedded ({ · with oneofs := · }) (by decide)
      (fun o ho => oneof_readsBack (hd.oneofs o ho)) hdoneofs (fun _ _ => rfl) rfl rfl) ?_
    refine .append (reads_embedded ({ · with reservedRanges := · }) (by decide)
      (fun r hr => range_readsBack (hd.reservedRanges r hr)) hdreserved (fun _ _ => rfl) rfl rfl) ?_
    exact reads_texts ({ · with reservedNames := · }) (by decide) (fun _ _ => rfl) rfl rfl

theorem messages_readBack : ∀ (scope : String) (ms : List Message),
    (∀ p ∈ Message.trees scope ms, p.2.Writable) → FewChoices (Message.trees scope ms) →
      ∀ d ∈ ms, ReadsBack readDeclaredMessage? Message.depth Message.encoded d
  | _, [], _, _ => List.forall_mem_nil _
  | scope, m :: ms, h, hchoices => by
    obtain ⟨hfirst, hrest⟩ := List.forall_mem_append.mp h
    obtain ⟨hfew, hmore⟩ := List.forall_mem_append.mp hchoices
    refine List.forall_mem_cons.mpr ⟨message_readsBack scope m hfirst hfew, ?_⟩
    exact messages_readBack scope ms hrest hmore

end

/-! ### Files and sets -/

theorem file_readsBack {d : File} (hd : d.Writable) (hchoices : FewChoices d.messageTree)
    (himports : d.imports.length ≤ placeLimit) : ReadsBack readFile? File.depth File.encoded d := by
  intro budget hdepth hsize
  have hpublic : ∀ i ∈ d.publicImports, IsInt32 i :=
    fun i hi => isInt32_of_place (hd.publicImports i hi) himports
  have hweak : ∀ i ∈ d.weakImports, IsInt32 i :=
    fun i hi => isInt32_of_place (hd.weakImports i hi) himports
  simp only [File.depth, Nat.max_le] at hdepth
  obtain ⟨hdmessages, hdenums, hdservices, hdextensions, hdoptions⟩ := hdepth
  refine readMessage?_of_reads ?_ hsize
  simp only [File.wireFields, List.append_assoc, List.cons_append, List.nil_append]
  refine .cons (reads_text (by decide) rfl rfl) ?_
  refine .append (reads_textField ({ · with package := · }) (by decide) rfl rfl rfl) ?_
  refine .append (reads_texts ({ · with imports := · }) (by decide) (fun _ _ => rfl) rfl rfl) ?_
  refine .append (reads_embedded ({ · with messages := · }) (by decide)
    (messages_readBack d.package d.messages hd.messages hchoices) hdmessages (fun _ _ => rfl) rfl rfl) ?_
  refine .append (reads_embedded ({ · with enums := · }) (by decide)
    (fun e he => enum_readsBack (hd.enums e he)) hdenums (fun _ _ => rfl) rfl rfl) ?_
  refine .append (reads_embedded ({ · with services := · }) (by decide)
    (fun s hs => service_readsBack (hd.services s hs)) hdservices (fun _ _ => rfl) rfl rfl) ?_
  refine .append (reads_embedded ({ · with extensions := · }) (by decide)
    (fun x hx => extension_readsBack (hd.extensions x hx)) hdextensions (fun _ _ => rfl) rfl rfl) ?_
  refine .append (reads_optionsField ({ · with options := · }) (by decide) hd.options hdoptions
    (fun _ => rfl) rfl rfl) ?_
  refine .append (reads_numbers ({ · with publicImports := · }) (by decide) hpublic (fun _ _ => rfl)
    rfl rfl) ?_
  refine .append (reads_numbers ({ · with weakImports := · }) (by decide) hweak (fun _ _ => rfl)
    rfl rfl) ?_
  exact reads_optional ({ · with dialect := · }) (fun _ _ => reads_text (by decide) rfl rfl) rfl rfl

/-- Whether the sizes in a set fit on the wire: lengths are varints of 64 bits, and imports and choices
are referred to by positions of 32 bits. -/
structure SizesFit (files : List File) : Prop where
  length : (encodeSet files).length < Width.size 64
  imports : ∀ f ∈ files, f.imports.length ≤ placeLimit
  choices : ∀ f ∈ files, FewChoices f.messageTree

/-- A set of files is read as it is written, if the files can be written and embed messages no deeper
than readers follow them. -/
theorem readSet?_encodeSet {files : List File} (hfiles : ∀ f ∈ files, f.Writable)
    (hdepth : setDepth files ≤ nestingBudget) (hsizes : SizesFit files) :
    readSet? (encodeSet files) = some files := by
  refine readMessage?_of_reads ?_ hsizes.length
  refine reads_embedded (fun _ files => files) (by decide) (fun f hf => ?_) hdepth (fun _ _ => rfl) rfl rfl
  exact file_readsBack (hfiles f hf) (hsizes.choices f hf) (hsizes.imports f hf)

end SchemaTree.Descriptor
