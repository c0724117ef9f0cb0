import SchemaTree.Proofs.Descriptor.Writable
import SchemaTree.Proofs.Source.File

/-!
# Numbers in sources fit

Every number that the grammar accepts in a source fits into 32 bits: numbers of fields and enum values,
bounds of ranges, and type codes, in messages at any depth of nesting. The options of fields are left there
as they are written.
-/

namespace SchemaTree

/-! ### Readers -/

namespace Token.Parser

theorem yields_refuse {P : α → Prop} : Yields P (refuse : Parser α) := by
  intro ts a rest h
  cases h

theorem yields_refuse_then {P : β → Prop} {f : α → Parser β} : Yields P (refuse >>= f) := by
  intro ts b rest h
  cases h

theorem yields_guard {P : α → Prop} {c : Prop} [Decidable c] {a : α} (h : c → P a) :
    Yields P (if c then pure a else refuse) := by
  split
  · rename_i hc
    exact yields_pure (h hc)
  · exact yields_refuse

theorem yields_moreSeparated {P : α → Prop} {item : Parser α} (h : Yields P item) (fuel : Nat) :
    Yields (fun xs => ∀ x ∈ xs, P x) (moreSeparated item fuel) := by
  induction fuel with
  | zero => exact yields_refuse
  | succ fuel ih =>
    unfold moreSeparated
    refine yields_then fun _ => yields_ite ?_ (yields_pure (List.forall_mem_nil P))
    refine yields_bind h fun a ha => yields_bind ih fun xs hxs => ?_
    exact yields_pure (List.forall_mem_cons.mpr ⟨ha, hxs⟩)

theorem yields_separated {P : α → Prop} {item : Parser α} (h : Yields P item) :
    Yields (fun xs => ∀ x ∈ xs, P x) (separated item) := by
  unfold separated
  refine yields_bind h fun a ha => yields_then fun _ => ?_
  refine yields_bind (yields_moreSeparated h _) fun xs hxs => ?_
  exact yields_pure (List.forall_mem_cons.mpr ⟨ha, hxs⟩)

/-- What every item of a block keeps, the block keeps. -/
theorem yields_block {P : σ → Prop} {item : σ → Parser σ} (h : ∀ s, P s → Yields P (item s)) {start : σ}
    (hstart : P start) : Yields P (block item start) := by
  have hitems (fuel : Nat) (s : σ) (hs : P s) : Yields P (itemsWithin item fuel s) := by
    induction fuel generalizing s with
    | zero => exact yields_refuse
    | succ fuel ih =>
      unfold itemsWithin
      refine yields_then fun _ => yields_ite (yields_pure hs) ?_
      exact yields_bind (h s hs) ih
  unfold block
  exact yields_then fun _ => yields_then fun fuel => hitems fuel start hstart

end Token.Parser

namespace Source
open Descriptor (Message Options Range)
open Token.Parser
open Wire (IsInt32)
open Schema (Dialect)

/-! ### Numbers and ranges -/

theorem int32_fits : Yields IsInt32 int32 := by
  unfold int32
  refine yields_then fun negative => yields_then fun n => ?_
  exact yields_guard id

/-- Field numbers leave room for the number after them. -/
theorem fieldNumber_fits : Yields (fun n => 1 ≤ n ∧ n ≤ 536870911) fieldNumber := by
  have hmax : maxFieldNumber = 536870911 := rfl
  unfold fieldNumber
  refine yields_then fun n => yields_guard fun hn => ?_
  constructor
  · omega
  · omega

theorem isInt32_of_fieldNumber {n : Int} (h : 1 ≤ n ∧ n ≤ 536870911) : IsInt32 n := by
  constructor
  · omega
  · omega

theorem rangeEnd_fits {P : Int → Prop} {number : Token.Parser Int} {greatest first : Int}
    (hnumber : Yields P number) (hgreatest : P greatest) (hfirst : P first) :
    Yields (fun r => P r.1) (rangeEnd number greatest first) := by
  unfold rangeEnd
  refine yields_then fun _ => yields_ite ?_ (yields_pure hfirst)
  refine yields_then fun _ => yields_ite (yields_pure hgreatest) ?_
  exact yields_bind hnumber fun n hn => yields_pure hn

theorem fieldRange_fits : Yields (fun r => r.1.Numbered) fieldRange := by
  unfold fieldRange
  refine yields_bind fieldNumber_fits fun first hfirst => ?_
  refine yields_bind (rangeEnd_fits fieldNumber_fits (by decide) hfirst) fun last hlast => yields_pure ?_
  have hstop : IsInt32 (last.1 + 1) := by
    constructor
    · omega
    · omega
  exact ⟨isInt32_of_fieldNumber hfirst, hstop⟩

theorem enumRange_fits : Yields Range.Numbered enumRange := by
  unfold enumRange
  refine yields_bind int32_fits fun first hfirst => ?_
  refine yields_bind (rangeEnd_fits int32_fits (by decide) hfirst) fun last hlast => yields_pure ?_
  exact ⟨hfirst, hlast⟩

theorem extensionRanges_fits :
    Yields (fun ranges => ∀ r ∈ ranges, r.toRange.Numbered) extensionRanges := by
  unfold extensionRanges
  refine yields_bind (yields_separated fieldRange_fits) fun ranges hranges => ?_
  dsimp only
  refine yields_ite ?_ ?_
  all_goals
    refine yields_then fun _ => yields_then fun _ => yields_then fun options => yields_pure ?_
    exact List.forall_mem_map.mpr hranges

theorem reserved_fits {range : Token.Parser Range} (h : Yields Range.Numbered range) :
    Yields (fun r => ∀ x ∈ r.1, x.Numbered) (reserved range) := by
  unfold reserved
  refine yields_then fun _ => ?_
  dsimp only
  have hend (r : List Range × List String) (hr : ∀ x ∈ r.1, x.Numbered) :
      Yields (fun r => ∀ x ∈ r.1, x.Numbered) (do symbol ';'; pure r) :=
    yields_then fun _ => yields_pure hr
  split
  · exact yields_then fun names => yields_bind (yields_pure (List.forall_mem_nil _)) hend
  · refine yields_bind (yields_separated h) fun ranges hranges => ?_
    exact yields_bind (yields_pure hranges) hend

/-! ### Enums -/

theorem enumItem_numbered {d : Descriptor.Enum} (hd : d.Numbered) :
    Yields Descriptor.Enum.Numbered (enumItem d) := by
  unfold enumItem
  refine yields_then fun _ => yields_ite (yields_pure hd) ?_
  refine yields_then fun _ => yields_ite ?option ?_
  case option => exact yields_then fun _ => yields_pure ⟨hd.values, hd.reservedRanges⟩
  refine yields_then fun _ => yields_ite ?reserved ?value
  case reserved =>
    refine yields_bind (reserved_fits enumRange_fits) fun r hr => yields_pure ?_
    exact ⟨hd.values, List.forall_mem_append.mpr ⟨hd.reservedRanges, hr⟩⟩
  case value =>
    refine yields_bind (P := fun v => IsInt32 v.number) ?_ fun v hv => yields_pure ?_
    · unfold enumValue
      refine yields_then fun _ => yields_then fun _ => yields_bind int32_fits fun n hn => ?_
      exact yields_then fun _ => yields_then fun _ => yields_then fun _ => yields_pure hn
    · exact ⟨List.forall_mem_append.mpr ⟨hd.values, List.forall_mem_singleton.mpr hv⟩, hd.reservedRanges⟩

theorem enum_numbered : Yields Descriptor.Enum.Numbered enum := by
  unfold enum
  refine yields_then fun name => yields_block (fun _ => enumItem_numbered) ?_
  exact ⟨List.forall_mem_nil _, List.forall_mem_nil _⟩

/-! ### Messages at any depth -/

/-- Options of which none has been interpreted. -/
def Unread (options : Option Options) : Prop := ∀ o ∈ options, o.known = []

/-- Messages whose numbers fit and whose fields have options as they are written, in those nested in them
too. -/
inductive AllNumbered : Message → Prop
  | intro {d : Message} (own : d.Numbered) (options : ∀ x ∈ d.fields, Unread x.options)
      (messages : ∀ m ∈ d.messages, AllNumbered m) : AllNumbered d

theorem AllNumbered.own {d : Message} : AllNumbered d → d.Numbered
  | intro own _ _ => own

theorem AllNumbered.options {d : Message} : AllNumbered d → ∀ x ∈ d.fields, Unread x.options
  | intro _ options _ => options

theorem AllNumbered.messages {d : Message} : AllNumbered d → ∀ m ∈ d.messages, AllNumbered m
  | intro _ _ messages => messages

mutual

theorem tree_numbered : ∀ (scope : String) (d : Message), AllNumbered d →
    ∀ p ∈ Message.tree scope d, AllNumbered p.2
  | scope, ⟨name, _, _, messages, _, _, _, _, _, _⟩, h =>
    List.forall_mem_cons.mpr ⟨h, trees_numbered (Descriptor.qualify scope name) messages h.messages⟩

theorem trees_numbered : ∀ (scope : String) (ms : List Message), (∀ m ∈ ms, AllNumbered m) →
    ∀ p ∈ Message.trees scope ms, AllNumbered p.2
  | _, [], _ => List.forall_mem_nil _
  | scope, m :: ms, h => by
    obtain ⟨hm, hms⟩ := List.forall_mem_cons.mp h
    exact List.forall_mem_append.mpr ⟨tree_numbered scope m hm, trees_numbered scope ms hms⟩

end

/-! ### Fields -/

theorem codeOfWord?_isInt32 {word : String} {code : Int} (h : Descriptor.codeOfWord? word = some code) :
    IsInt32 code := by
  unfold Descriptor.codeOfWord? at h
  split at h
  all_goals
    cases h
    try decide

theorem fieldType_fits : Yields (fun t => IsInt32 t.1) fieldType := by
  have hnamed : IsInt32 0 := by decide
  unfold fieldType
  refine yields_then fun _ => ?_
  split
  · split
    · rename_i code hcode
      exact yields_then fun _ => yields_pure (codeOfWord?_isInt32 hcode)
    · exact yields_then fun _ => yields_pure hnamed
  · exact yields_then fun _ => yields_pure hnamed

/-- Fields and the messages declared with them whose numbers fit; none of them is in a choice yet. -/
structure PartsNumbered (parts : FieldParts) : Prop where
  field : parts.field.ExtensionNumbered
  options : Unread parts.field.options
  message : ∀ m ∈ parts.message, AllNumbered m

theorem optionsOf_unread {settings : List Setting} : Yields Unread (optionsOf settings) := by
  unfold optionsOf
  split
  · exact yields_pure nofun
  · refine yields_pure fun o ho => ?_
    cases Option.some.inj ho
    rfl
  · exact yields_refuse

theorem applySettings_changes {dialect : Dialect} {x : Descriptor.Field} {settings : List Setting} :
    Yields (fun y => ∃ defaultText jsonName options, Unread options ∧
      y = { x with defaultText, jsonName, options }) (applySettings dialect x settings) := by
  unfold applySettings
  dsimp only
  -- Each choice of a default and of a JSON name ends with the options and the changed field.
  repeat' first
    | exact yields_then fun _ => yields_bind optionsOf_unread fun _ ho => yields_pure ⟨_, _, _, ho, rfl⟩
    | split
    | refine yields_then fun _ => ?_

theorem applySettings_numbered {dialect : Dialect} {x : Descriptor.Field} {settings : List Setting}
    (hx : x.ExtensionNumbered) :
    Yields (fun y => y.ExtensionNumbered ∧ Unread y.options) (applySettings dialect x settings) := by
  refine applySettings_changes.imp ?_
  rintro y ⟨_, _, _, hoptions, rfl⟩
  exact ⟨⟨⟨hx.number, hx.typeCode⟩, hx.oneofIndex⟩, hoptions⟩

theorem plainField_numbered {dialect : Dialect} {label : Descriptor.Label} {isOptional : Bool} :
    Yields PartsNumbered (plainField dialect label isOptional) := by
  unfold plainField
  refine yields_bind fieldType_fits fun type htype => yields_then fun name => yields_then fun _ => ?_
  refine yields_bind fieldNumber_fits fun number hnumber => yields_then fun _ => yields_then fun _ => ?_
  have hstart : Descriptor.Field.ExtensionNumbered
      { name, number, label, typeCode := type.1, typeName := type.2 } :=
    ⟨⟨isInt32_of_fieldNumber hnumber, htype⟩, rfl⟩
  refine yields_bind (applySettings_numbered hstart) fun x ⟨hx, hoptions⟩ => yields_pure ⟨?_, hoptions, by simp⟩
  exact ⟨⟨hx.number, hx.typeCode⟩, hx.oneofIndex⟩

theorem AllNumbered.rename {d : Message} (hd : AllNumbered d) (name : String) :
    AllNumbered { d with name } := by
  obtain ⟨own, options, messages⟩ := hd
  exact .intro ⟨own.fields, own.extensions, own.enums, own.extensionRanges, own.reservedRanges⟩ options messages

theorem group_numbered {dialect : Dialect} {label : Descriptor.Label} {body : Token.Parser Message}
    (hbody : Yields AllNumbered body) : Yields PartsNumbered (group dialect label body) := by
  unfold group
  dsimp only
  refine yields_ite yields_refuse_then ?_
  refine yields_then fun name => ?_
  refine yields_ite ?_ yields_refuse_then
  refine yields_then fun _ => yields_bind fieldNumber_fits fun number hnumber => yields_then fun _ => ?_
  refine yields_bind hbody fun message hmessage => ?_
  have hcode : IsInt32 10 := by decide
  have hstart : Descriptor.Field.ExtensionNumbered
      { name := Text.lower name, number, label, typeCode := 10, typeName := name } :=
    ⟨⟨isInt32_of_fieldNumber hnumber, hcode⟩, rfl⟩
  refine yields_bind (applySettings_numbered hstart) fun x ⟨hx, hoptions⟩ => yields_pure ⟨hx, hoptions, ?_⟩
  intro m hm
  cases Option.some.inj hm
  exact hmessage.rename name

theorem entry_numbered {keyCode valueCode : Int} (hkey : IsInt32 keyCode) (hvalue : IsInt32 valueCode)
    (name valueName : String) : AllNumbered
      { name
        fields := [{ name := "key", number := 1, typeCode := keyCode },
          { name := "value", number := 2, typeCode := valueCode, typeName := valueName }]
        options := some (Options.ofFlag Descriptor.mapEntryNumber) } := by
  have hfirst : IsInt32 1 := by decide
  have hsecond : IsInt32 2 := by decide
  refine .intro ⟨?_, by simp, by simp, by simp, by simp⟩ (by simp [Unread]) (by simp)
  exact List.forall_mem_cons.mpr ⟨⟨hfirst, hkey⟩, List.forall_mem_singleton.mpr ⟨hsecond, hvalue⟩⟩

theorem mapField_numbered {dialect : Dialect} : Yields PartsNumbered (mapField dialect) := by
  unfold mapField
  refine yields_then fun _ => yields_bind fieldType_fits fun key hkey => ?_
  dsimp only
  refine yields_ite ?_ yields_refuse_then
  refine yields_then fun _ => yields_bind fieldType_fits fun value hvalue => ?_
  refine yields_then fun _ => yields_then fun name => yields_then fun _ => ?_
  refine yields_bind fieldNumber_fits fun number hnumber => yields_then fun _ => ?_
  have hcode : IsInt32 11 := by decide
  have hstart : Descriptor.Field.ExtensionNumbered
      { name, number, label := .repeated, typeCode := 11, typeName := entryName name } :=
    ⟨⟨isInt32_of_fieldNumber hnumber, hcode⟩, rfl⟩
  refine yields_bind (applySettings_numbered hstart) fun x ⟨hx, hoptions⟩ => yields_pure ⟨hx, hoptions, ?_⟩
  intro m hm
  cases Option.some.inj hm
  exact entry_numbered hkey hvalue _ _

theorem labelledField_numbered {dialect : Dialect} {isExtension : Bool} {body : Token.Parser Message}
    (hbody : Yields AllNumbered body) : Yields PartsNumbered (labelledField dialect isExtension body) := by
  unfold labelledField
  refine yields_then fun label => yields_then fun _ => ?_
  dsimp only
  refine yields_ite ?_ ?_
  · refine yields_ite yields_refuse_then (yields_then fun _ => yields_bind mapField_numbered fun parts hparts => ?_)
    exact yields_then fun _ => yields_pure hparts
  · refine yields_ite yields_refuse_then (yields_ite yields_refuse_then (yields_then fun _ => ?_))
    exact yields_ite (group_numbered hbody) plainField_numbered

theorem oneofField_numbered {dialect : Dialect} {body : Token.Parser Message}
    (hbody : Yields AllNumbered body) : Yields PartsNumbered (oneofField dialect body) := by
  unfold oneofField
  refine yields_then fun _ => ?_
  dsimp only
  refine yields_ite yields_refuse_then (yields_then fun _ => ?_)
  refine yields_ite yields_refuse_then (yields_then fun _ => ?_)
  exact yields_ite (group_numbered hbody) plainField_numbered

/-! ### Items of messages -/

theorem AllNumbered.addMessages {d : Message} (hd : AllNumbered d) {messages : List Message}
    (h : ∀ m ∈ messages, AllNumbered m) : AllNumbered { d with messages := d.messages ++ messages } := by
  obtain ⟨own, options, nested⟩ := hd
  exact .intro ⟨own.fields, own.extensions, own.enums, own.extensionRanges, own.reservedRanges⟩ options
    (List.forall_mem_append.mpr ⟨nested, h⟩)

theorem AllNumbered.addParts {d : Message} (hd : AllNumbered d) {x : Descriptor.Field}
    {message : Option Message} (hx : x.Numbered) (hoptions : Unread x.options)
    (hmessage : ∀ m ∈ message, AllNumbered m) : AllNumbered (addField d ⟨x, message⟩) := by
  obtain ⟨own, options, nested⟩ := hd
  have hfields := List.forall_mem_append.mpr ⟨own.fields, List.forall_mem_singleton.mpr hx⟩
  have hnested : ∀ m ∈ d.messages ++ message.toList, AllNumbered m :=
    List.forall_mem_append.mpr ⟨nested, by simpa using hmessage⟩
  exact .intro ⟨hfields, own.extensions, own.enums, own.extensionRanges, own.reservedRanges⟩
    (List.forall_mem_append.mpr ⟨options, List.forall_mem_singleton.mpr hoptions⟩) hnested

theorem oneof_numbered {dialect : Dialect} {body : Token.Parser Message}
    (hbody : Yields AllNumbered body) {d : Message} (hd : AllNumbered d) :
    Yields AllNumbered (oneof dialect body d) := by
  unfold oneof
  refine yields_then fun name => ?_
  dsimp only
  refine yields_bind (P := fun s => AllNumbered s.1) (yields_block ?item hd) fun s hs => ?_
  case item =>
    intro s hs
    refine yields_then fun _ => yields_ite (yields_pure hs) ?_
    refine yields_then fun _ => yields_ite (yields_then fun _ => yields_pure hs) ?_
    refine yields_bind (oneofField_numbered hbody) fun parts hparts => yields_pure ?_
    exact hs.addParts ⟨hparts.field.number, hparts.field.typeCode⟩ hparts.options hparts.message
  refine yields_ite yields_refuse_then (yields_pure ?_)
  obtain ⟨own, options, nested⟩ := hs
  exact .intro ⟨own.fields, own.extensions, own.enums, own.extensionRanges, own.reservedRanges⟩ options nested

/-- Extensions and the messages declared with them whose numbers fit. -/
structure ExtensionsNumbered (x : ExtensionBlock) : Prop where
  fields : ∀ f ∈ x.fields, f.ExtensionNumbered
  messages : ∀ m ∈ x.messages, AllNumbered m

theorem extensions_numbered {dialect : Dialect} {body : Token.Parser Message}
    (hbody : Yields AllNumbered body) : Yields ExtensionsNumbered (extensions dialect body) := by
  unfold extensions
  refine yields_then fun extendee => yields_block ?_ ⟨by simp, by simp⟩
  intro d hd
  refine yields_then fun _ => yields_ite (yields_pure hd) ?_
  refine yields_bind (labelledField_numbered hbody) fun parts hparts => yields_pure ?_
  have hfield : Descriptor.Field.ExtensionNumbered { parts.field with extendee := some extendee } :=
    ⟨⟨hparts.field.number, hparts.field.typeCode⟩, hparts.field.oneofIndex⟩
  refine ⟨List.forall_mem_append.mpr ⟨hd.fields, List.forall_mem_singleton.mpr hfield⟩, ?_⟩
  exact List.forall_mem_append.mpr ⟨hd.messages, by simpa using hparts.message⟩

theorem messageItem_numbered {dialect : Dialect} {body : Token.Parser Message}
    (hbody : Yields AllNumbered body) {d : Message} (hd : AllNumbered d) :
    Yields AllNumbered (messageItem dialect body d) := by
  have hown := hd.own
  unfold messageItem
  refine yields_then fun _ => yields_ite (yields_pure hd) ?_
  refine yields_then fun _ => yields_ite ?message ?_
  case message =>
    refine yields_then fun name => yields_bind hbody fun m hm => yields_pure ?_
    exact hd.addMessages (List.forall_mem_singleton.mpr (hm.rename name))
  refine yields_then fun _ => yields_ite ?enum ?_
  case enum =>
    refine yields_bind enum_numbered fun e he => yields_pure (.intro ?_ hd.options hd.messages)
    exact ⟨hown.fields, hown.extensions,
      List.forall_mem_append.mpr ⟨hown.enums, List.forall_mem_singleton.mpr he⟩, hown.extensionRanges,
      hown.reservedRanges⟩
  refine yields_then fun _ => yields_ite ?extend ?_
  case extend =>
    refine yields_bind (extensions_numbered hbody) fun x hx => yields_pure (.intro ?_ hd.options ?_)
    · exact ⟨hown.fields, List.forall_mem_append.mpr ⟨hown.extensions, hx.fields⟩, hown.enums,
        hown.extensionRanges, hown.reservedRanges⟩
    · exact List.forall_mem_append.mpr ⟨hd.messages, hx.messages⟩
  refine yields_then fun _ => yields_ite ?extensions ?_
  case extensions =>
    refine yields_bind extensionRanges_fits fun ranges hranges => yields_pure (.intro ?_ hd.options hd.messages)
    exact ⟨hown.fields, hown.extensions, hown.enums,
      List.forall_mem_append.mpr ⟨hown.extensionRanges, hranges⟩, hown.reservedRanges⟩
  refine yields_then fun _ => yields_ite ?reserved ?_
  case reserved =>
    have hrange : Yields Range.Numbered (do pure (← fieldRange).1) :=
      yields_bind fieldRange_fits fun r hr => yields_pure hr
    refine yields_bind (reserved_fits hrange) fun r hr => yields_pure (.intro ?_ hd.options hd.messages)
    exact ⟨hown.fields, hown.extensions, hown.enums, hown.extensionRanges,
      List.forall_mem_append.mpr ⟨hown.reservedRanges, hr⟩⟩
  refine yields_then fun _ => yields_ite ?option ?_
  case option =>
    refine yields_then fun _ => yields_pure (.intro ?_ hd.options hd.messages)
    exact ⟨hown.fields, hown.extensions, hown.enums, hown.extensionRanges, hown.reservedRanges⟩
  refine yields_then fun _ => yields_ite (oneof_numbered hbody hd) ?_
  refine yields_bind (labelledField_numbered hbody) fun parts hparts => yields_pure ?_
  exact hd.addParts hparts.field.toNumbered hparts.options hparts.message

/-! ### Messages and files -/

theorem addSyntheticOneofs_numbered {d : Message} (hd : AllNumbered d) :
    AllNumbered (addSyntheticOneofs d) := by
  obtain ⟨own, options, nested⟩ := hd
  have key : ∀ x ∈ (addSyntheticOneofs d).fields, x.Numbered ∧ Unread x.options := by
    -- A choice of its own changes nothing of a field but its position among the choices.
    refine List.foldlRecOn (motive := fun s : List Descriptor.Field × List Descriptor.Oneof =>
      ∀ x ∈ s.1, x.Numbered ∧ Unread x.options) d.fields _ (List.forall_mem_nil _) ?_
    intro s hs x hx
    have hfield := own.fields x hx
    have hoptions := options x hx
    dsimp only
    split
    · refine List.forall_mem_append.mpr ⟨hs, List.forall_mem_singleton.mpr ⟨?_, hoptions⟩⟩
      exact ⟨hfield.number, hfield.typeCode⟩
    · exact List.forall_mem_append.mpr ⟨hs, List.forall_mem_singleton.mpr ⟨hfield, hoptions⟩⟩
  refine .intro ⟨fun x hx => (key x hx).1, ?_, ?_, ?_, ?_⟩ (fun x hx => (key x hx).2) nested
  · exact own.extensions
  · exact own.enums
  · exact own.extensionRanges
  · exact own.reservedRanges

theorem messageBody_numbered (dialect : Dialect) (fuel : Nat) :
    Yields AllNumbered (messageBody dialect fuel) := by
  have hstart : AllNumbered {} := .intro ⟨by simp, by simp, by simp, by simp, by simp⟩ (by simp) (by simp)
  induction fuel with
  | zero => exact yields_refuse
  | succ fuel ih =>
    unfold messageBody
    refine yields_bind (yields_block (fun _ => messageItem_numbered ih) hstart) fun d hd => ?_
    exact yields_pure (addSyntheticOneofs_numbered hd)

/-- Files whose numbers fit, in messages at any depth too. -/
structure FileNumbered (d : Descriptor.File) : Prop where
  messages : ∀ m ∈ d.messages, AllNumbered m
  enums : ∀ e ∈ d.enums, e.Numbered
  extensions : ∀ x ∈ d.extensions, x.ExtensionNumbered

theorem fileItem_numbered {dialect : Dialect} {body : Token.Parser Message}
    (hbody : Yields AllNumbered body) {d : Descriptor.File} (hd : FileNumbered d) :
    Yields FileNumbered (fileItem dialect body d) := by
  have hsame (d' : Descriptor.File) (hmessages : d'.messages = d.messages) (henums : d'.enums = d.enums)
      (hextensions : d'.extensions = d.extensions) : FileNumbered d' :=
    ⟨hmessages ▸ hd.messages, henums ▸ hd.enums, hextensions ▸ hd.extensions⟩
  unfold fileItem
  refine yields_then fun _ => yields_ite (yields_pure hd) ?_
  refine yields_then fun _ => yields_ite ?imports ?_
  case imports =>
    unfold importStatement
    refine yields_then fun _ => ?_
    dsimp only
    refine yields_ite (yields_then fun _ => ?_) (yields_then fun _ => ?_)
    all_goals
      refine yields_then fun _ => yields_then fun _ => ?_
      exact yields_ite yields_refuse_then (yields_pure (hsame _ rfl rfl rfl))
  refine yields_then fun _ => yields_ite ?package ?_
  case package =>
    refine yields_then fun _ => yields_then fun _ => ?_
    exact yields_ite yields_refuse_then (yields_pure (hsame _ rfl rfl rfl))
  refine yields_then fun _ => yields_ite (yields_then fun _ => yields_pure (hsame _ rfl rfl rfl)) ?_
  refine yields_then fun _ => yields_ite ?message ?_
  case message =>
    refine yields_then fun name => yields_bind hbody fun m hm => yields_pure ?_
    have hmessages := List.forall_mem_append.mpr ⟨hd.messages, List.forall_mem_singleton.mpr (hm.rename name)⟩
    exact ⟨hmessages, hd.enums, hd.extensions⟩
  refine yields_then fun _ => yields_ite ?enum ?_
  case enum =>
    refine yields_bind enum_numbered fun e he => yields_pure ?_
    exact ⟨hd.messages, List.forall_mem_append.mpr ⟨hd.enums, List.forall_mem_singleton.mpr he⟩,
      hd.extensions⟩
  refine yields_then fun _ => yields_ite ?extend ?_
  case extend =>
    refine yields_bind (extensions_numbered hbody) fun x hx => yields_pure ?_
    exact ⟨List.forall_mem_append.mpr ⟨hd.messages, hx.messages⟩, hd.enums,
      List.forall_mem_append.mpr ⟨hd.extensions, hx.fields⟩⟩
  exact yields_then fun _ => yields_then fun _ => yields_pure (hsame _ rfl rfl rfl)

theorem fileItems_numbered {dialect : Dialect} {body : Token.Parser Message}
    (hbody : Yields AllNumbered body) (fuel : Nat) {d : Descriptor.File} (hd : FileNumbered d) :
    Yields FileNumbered (fileItems dialect body fuel d) := by
  induction fuel generalizing d with
  | zero =>
    unfold fileItems
    exact yields_then fun _ => yields_ite yields_refuse_then (yields_pure hd)
  | succ fuel ih =>
    unfold fileItems
    refine yields_then fun _ => yields_ite (yields_pure hd) ?_
    exact yields_bind (fileItem_numbered hbody hd) fun d' hd' => ih hd'

theorem file_numbered (name : String) : Yields FileNumbered (file name) := by
  have hstart (dialect : Option String) : FileNumbered { name, dialect } := ⟨by simp, by simp, by simp⟩
  unfold file
  refine yields_then fun word => ?_
  dsimp only
  split
  all_goals
    refine yields_then fun _ => yields_then fun fuel => ?_
    exact fileItems_numbered (messageBody_numbered _ fuel) fuel (hstart _)

theorem read?_fileNumbered {name source : String} {d : Descriptor.File} (h : read? name source = some d) :
    FileNumbered d := by
  obtain ⟨tokens, _, h⟩ := Option.bind_eq_some_iff.mp h
  obtain ⟨⟨d', rest⟩, hfile, h⟩ := Option.bind_eq_some_iff.mp h
  cases Option.some.inj h
  exact file_numbered name tokens _ _ hfile

/-- The numbers of a declared file fit. -/
theorem read?_numbered {name source : String} {d : Descriptor.File} (h : read? name source = some d) :
    d.Numbered := by
  have hd := read?_fileNumbered h
  refine ⟨fun p hp => ?_, hd.enums, hd.extensions⟩
  exact (trees_numbered d.package d.messages hd.messages p hp).own

/-- The options of a declared field are as they are written. -/
theorem read?_unread {name source : String} {d : Descriptor.File} (h : read? name source = some d) :
    ∀ p ∈ d.messageTree, ∀ x ∈ p.2.fields, Unread x.options := fun p hp =>
  (trees_numbered d.package d.messages (read?_fileNumbered h).messages p hp).options

end Source
end SchemaTree
