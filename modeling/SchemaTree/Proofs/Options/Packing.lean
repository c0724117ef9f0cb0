import SchemaTree.Options.Interpret
import SchemaTree.Proofs.Descriptor.Decoded
import SchemaTree.Proofs.Descriptor.Reads
import SchemaTree.Proofs.Pool.Reference
import SchemaTree.Proofs.Wire.Written

/-!
# What interpreting makes of the option for packing

Interpreted options of a field are marked as packed if an option `packed` is written among them with the
value `true`, whatever else is written there. That rests on the form of the options message, which a schema
can declare itself: `packed` has to be a flag of its usual number.
-/

namespace SchemaTree.Options
open Descriptor
open Pool (Declaration)
open Schema (Dialect)

/-! ### Usual options messages -/

/-- The options message of fields as far as packing goes: in proto2, with `packed` for a single flag of the
usual number that is in no choice, and without groups. -/
def UsualMessage (dialect : Dialect) (m : Message) : Prop :=
  dialect = .proto2 ∧ ∀ x ∈ m.fields, (x.name = "packed" ↔ x.number = packedNumber) ∧
    x.typeCode ≠ groupCode ∧
    (x.number = packedNumber → x.typeCode = boolCode ∧ x.label ≠ .repeated ∧ x.oneofIndex = none)

instance (dialect : Dialect) (m : Message) : Decidable (UsualMessage dialect m) :=
  inferInstanceAs (Decidable (_ ∧ _))

/-- An extension that is no group and, if it extends the options of fields, has not the number of `packed`. -/
def UsualExtension (x : Field) : Prop :=
  x.extendee = some (absolute Target.field.messageName) →
    x.number ≠ packedNumber ∧ x.typeCode ≠ groupCode

instance (x : Field) : Decidable (UsualExtension x) := inferInstanceAs (Decidable (_ → _))

/-- Declarations in which the options of fields are as usual. -/
def Usual (ds : List Declaration) : Prop :=
  ∀ d ∈ ds, match d.entry with
    | .message m => d.name = Target.field.messageName → UsualMessage d.dialect m
    | .extension x => UsualExtension x
    | _ => True

theorem Usual.messageType {ds : List Declaration} (h : Usual ds) {type : MessageType}
    (htype : messageType? ds Target.field.messageName = some type) :
    UsualMessage type.dialect type.message := by
  unfold messageType? at htype
  split at htype
  · rename_i name file dialect m hfind
    cases Option.some.inj htype
    have hname : name = Target.field.messageName := by simpa using List.find?_some hfind
    exact h _ (List.mem_of_find?_eq_some hfind) hname
  · cases htype

theorem messageType?_name {ds : List Declaration} {name : String} {type : MessageType}
    (h : messageType? ds name = some type) : type.name = name := by
  unfold messageType? at h
  split at h
  · cases Option.some.inj h
    rfl
  · cases h

/-! ### Slots -/

/-- A slot of the options of fields: no group, and a single flag if it is the one for packing. -/
structure UsualSlot (slot : Slot) : Prop where
  form : slot.form ≠ .group
  flag : slot.number = packedNumber → slot.field.typeCode = boolCode ∧ slot.isRepeated = false ∧
    slot.hasPresence = true ∧ slot.isExtension = false ∧ slot.field.oneofIndex = none

theorem UsualSlot.holdsMessages {slot : Slot} (h : UsualSlot slot) (hnumber : slot.number = packedNumber) :
    slot.holdsMessages = false := by
  rw [Slot.holdsMessages, Slot.form, (h.flag hnumber).1]
  rfl

theorem eq_groupCode {code : Int} (h : Form.ofCode code = .group) : code = groupCode := by
  unfold Form.ofCode at h
  split at h
  all_goals first | rfl | cases h

section Slots
variable {type : MessageType} (h : UsualMessage type.dialect type.message)
include h

theorem usual_fieldSlot {x : Field} (hx : x ∈ type.message.fields) : UsualSlot (type.fieldSlot x) := by
  obtain ⟨hdialect, hfields⟩ := h
  obtain ⟨-, hgroup, hflag⟩ := hfields x hx
  refine ⟨fun hform => hgroup (eq_groupCode hform), fun hnumber => ?_⟩
  have hx : x.number = packedNumber := by
    have hnat : x.number.toNat = packedNumber := hnumber
    have hpos : packedNumber = 2 := rfl
    omega
  obtain ⟨hcode, hlabel, honeof⟩ := hflag hx
  have hsingle : (type.fieldSlot x).isRepeated = false := decide_eq_false hlabel
  have hown : (type.fieldSlot x).isExtension = false := rfl
  have hproto2 : (type.fieldSlot x).dialect = .proto2 := hdialect
  refine ⟨hcode, hsingle, ?_, hown, honeof⟩
  simp [Slot.hasPresence, hown, hsingle, hproto2]

theorem usual_siblings {slot : Slot} : ∀ s ∈ type.siblings slot, s.number ≠ packedNumber := by
  intro s hs hnumber
  unfold MessageType.siblings at hs
  split at hs
  · cases hs
  · split at hs
    · cases hs
    · rename_i i _
      obtain ⟨x, hx, rfl⟩ := List.mem_map.mp hs
      obtain ⟨hin, hchoice⟩ := List.mem_filter.mp hx
      simp only [Bool.and_eq_true, decide_eq_true_eq] at hchoice
      obtain ⟨-, -, -, -, honeof⟩ := (usual_fieldSlot h hin).flag hnumber
      have hnone : x.oneofIndex = none := honeof
      rw [hchoice.1] at hnone
      cases hnone

end Slots

theorem usual_extensionSlot {ds : List Declaration} (hds : Usual ds) {type : MessageType}
    (hname : type.name = Target.field.messageName) {d : Declaration} (hd : d ∈ ds) {slot : Slot}
    (hslot : type.extensionSlot? d = some slot) : UsualSlot slot ∧ slot.number ≠ packedNumber := by
  unfold MessageType.extensionSlot? at hslot
  split at hslot
  · rename_i x hx
    split at hslot
    · rename_i hextendee
      cases Option.some.inj hslot
      have husual := hds d hd
      rw [hx] at husual
      obtain ⟨hnumber, hgroup⟩ := husual (hname ▸ hextendee)
      have hapart : x.number.toNat ≠ packedNumber := by
        have hpos : packedNumber = 2 := rfl
        omega
      exact ⟨⟨fun hform => hgroup (eq_groupCode hform), fun heq => absurd heq hapart⟩, hapart⟩
    · cases hslot
  · cases hslot

/-! ### Contents -/

/-- Contents of an options message of a field that hold no group, and hold a flag `packed` of value `b` if
they hold one; without a flag `b` is false. -/
structure Tracks (b : Bool) (content : Content) : Prop where
  groups : ∀ e ∈ content.entries, ∀ v ∈ e.values, ¬v.IsGroup
  packed : ∀ e ∈ content.entries, e.number = packedNumber → e.values = [flagValue b]
  present : b = true → ∃ e ∈ content.entries, e.number = packedNumber

theorem tracks_empty : Tracks false {} := ⟨List.forall_mem_nil _, List.forall_mem_nil _, nofun⟩

theorem mem_setEntry {entry e : Entry} {entries : List Entry} (h : e ∈ setEntry entry entries) :
    e = entry ∨ e ∈ entries := by
  induction entries with
  | nil => exact .inl (List.mem_singleton.mp h)
  | cons first rest ih =>
    unfold setEntry at h
    split at h
    · exact List.mem_cons.mp h
    · split at h
      · exact (List.mem_cons.mp h).imp_right (List.mem_cons_of_mem first)
      · rcases List.mem_cons.mp h with rfl | h
        · exact .inr List.mem_cons_self
        · exact (ih h).imp_right (List.mem_cons_of_mem first)

theorem self_mem_setEntry (entry : Entry) (entries : List Entry) : entry ∈ setEntry entry entries := by
  induction entries with
  | nil => exact List.mem_singleton_self entry
  | cons first rest ih =>
    unfold setEntry
    split
    · exact List.mem_cons_self
    · split
      · exact List.mem_cons_self
      · exact List.mem_cons_of_mem first ih

theorem mem_setEntry_of_ne {entry e : Entry} {entries : List Entry} (he : e ∈ entries)
    (hne : e.number ≠ entry.number) : e ∈ setEntry entry entries := by
  induction entries with
  | nil => cases he
  | cons first rest ih =>
    unfold setEntry
    split
    · exact List.mem_cons_of_mem entry he
    · split
      · rename_i heq
        rcases List.mem_cons.mp he with rfl | he
        · exact absurd heq.symm hne
        · exact List.mem_cons_of_mem entry he
      · rcases List.mem_cons.mp he with rfl | he
        · exact List.mem_cons_self
        · exact List.mem_cons_of_mem first (ih he)

namespace Tracks
variable {b : Bool} {content : Content} (h : Tracks b content)
include h

theorem values (n : Nat) : ∀ v ∈ content.values n, ¬v.IsGroup := by
  intro v hv
  unfold Content.values Content.values? at hv
  cases hfind : content.entries.find? (·.number = n) with
  | none =>
    rw [hfind] at hv
    cases hv
  | some e =>
    rw [hfind] at hv
    exact h.groups e (List.mem_of_find?_eq_some hfind) v hv

/-- Setting another number leaves the flag alone. -/
theorem set {n : Nat} (hn : n ≠ packedNumber) {values : List Wire.Value}
    (hvalues : ∀ v ∈ values, ¬v.IsGroup) : Tracks b (content.set n values) := by
  refine ⟨?_, ?_, ?_⟩
  · intro e he
    rcases mem_setEntry he with rfl | he
    · exact hvalues
    · exact h.groups e he
  · intro e he hnumber
    rcases mem_setEntry he with rfl | he
    · exact absurd hnumber hn
    · exact h.packed e he hnumber
  · intro hb
    obtain ⟨e, he, hnumber⟩ := h.present hb
    exact ⟨e, mem_setEntry_of_ne he (hnumber ▸ hn.symm), hnumber⟩

theorem erase {n : Nat} (hn : n ≠ packedNumber) : Tracks b (content.erase n) := by
  refine ⟨?_, ?_, ?_⟩
  · intro e he
    exact h.groups e (List.mem_of_mem_filter he)
  · intro e he
    exact h.packed e (List.mem_of_mem_filter he)
  · intro hb
    obtain ⟨e, he, hnumber⟩ := h.present hb
    exact ⟨e, List.mem_filter.mpr ⟨he, by simpa [hnumber] using hn.symm⟩, hnumber⟩

theorem assign {type : MessageType} (htype : UsualMessage type.dialect type.message) {slot : Slot}
    (hslot : slot.number ≠ packedNumber) {values : List Wire.Value}
    (hvalues : ∀ v ∈ values, ¬v.IsGroup) : Tracks b (type.assign slot values content) := by
  have hsiblings : ∀ s ∈ type.siblings slot, s.number ≠ packedNumber := usual_siblings htype
  have herased : Tracks b
      ((type.siblings slot).foldl (fun content other => content.erase other.number) content) := by
    generalize type.siblings slot = others at hsiblings
    induction others generalizing content with
    | nil => exact h
    | cons other others ih =>
      obtain ⟨hother, hothers⟩ := List.forall_mem_cons.mp hsiblings
      exact ih (h.erase hother) hothers
  exact herased.set hslot hvalues

/-- The flag itself is set at most once. -/
theorem setPacked (hnone : content.values? packedNumber = none) (flag : Bool) :
    Tracks flag (content.set packedNumber [flagValue flag]) ∧ b = false := by
  have habsent : ∀ e ∈ content.entries, e.number ≠ packedNumber := by
    simpa [Content.values?] using hnone
  refine ⟨⟨?_, ?_, ?_⟩, ?_⟩
  · intro e he
    rcases mem_setEntry he with rfl | he
    · exact List.forall_mem_singleton.mpr id
    · exact h.groups e he
  · intro e he hnumber
    rcases mem_setEntry he with rfl | he
    · rfl
    · exact absurd hnumber (habsent e he)
  · intro _
    exact ⟨_, self_mem_setEntry _ _, rfl⟩
  · cases b with
    | false => rfl
    | true =>
      obtain ⟨e, he, hnumber⟩ := h.present rfl
      exact absurd hnumber (habsent e he)

end Tracks

/-! ### Values of options -/

theorem not_isGroup_integerValue (code n : Int) : ¬(integerValue code n).IsGroup := by
  unfold integerValue
  split <;> exact id

theorem not_isGroup_integer? {code n : Int} {value : Wire.Value} (h : integer? code n = some value) :
    ¬value.IsGroup := by
  unfold integer? at h
  split at h
  · split at h
    · cases Option.some.inj h
      exact not_isGroup_integerValue _ _
    · cases h
  · cases h

theorem not_isGroup_floatOfDouble (code : Int) (bits : Nat) : ¬(floatOfDouble code bits).IsGroup := by
  unfold floatOfDouble
  split <;> exact id

theorem not_isGroup_floatOfInteger (code n : Int) : ¬(floatOfInteger code n).IsGroup := by
  unfold floatOfInteger
  split <;> exact id

theorem bool?_eq_some {text : String} {value : Wire.Value} (h : bool? text = some value) :
    value = flagValue (text = "true") := by
  unfold bool? at h
  split at h
  · cases h
    rfl
  · cases h
    rfl
  · cases h

theorem not_isGroup_scalarValue? {types : List Declaration} {slot : Slot} {o : UninterpretedOption}
    {value : Wire.Value} (h : scalarValue? types slot o = some value) : ¬value.IsGroup := by
  unfold scalarValue? at h
  dsimp only at h
  split at h
  case h_1 | h_2 =>
    split at h
    · cases Option.some.inj h
      exact not_isGroup_floatOfDouble _ _
    · obtain ⟨n, _, rfl⟩ := Option.map_eq_some_iff.mp h
      exact not_isGroup_floatOfInteger _ n
  case h_3 =>
    obtain ⟨text, _, h⟩ := Option.bind_eq_some_iff.mp h
    rw [bool?_eq_some h]
    exact id
  case h_4 =>
    obtain ⟨bytes, _, h⟩ := Option.bind_eq_some_iff.mp h
    split at h
    · cases Option.some.inj h
      exact id
    · cases h
  case h_5 =>
    obtain ⟨bytes, _, rfl⟩ := Option.map_eq_some_iff.mp h
    exact id
  case h_6 =>
    obtain ⟨text, _, h⟩ := Option.bind_eq_some_iff.mp h
    obtain ⟨_, _, h⟩ := Option.bind_eq_some_iff.mp h
    obtain ⟨_, _, h⟩ := Option.bind_eq_some_iff.mp h
    cases Option.some.inj h
    exact not_isGroup_integerValue _ _
  case h_7 =>
    obtain ⟨n, _, h⟩ := Option.bind_eq_some_iff.mp h
    exact not_isGroup_integer? h

theorem not_isGroup_messageValue {slot : Slot} (h : slot.form ≠ .group) (contents : Bytes) :
    ¬(slot.messageValue contents).IsGroup := by
  rw [Slot.messageValue, if_neg h]
  exact id

/-- Whether an option is written that marks a field as packed. -/
def setsPacked (o : UninterpretedOption) : Bool :=
  o.name = [⟨"packed", false⟩] && o.identifier = some "true"

theorem setsPacked_of_ne {o : UninterpretedOption} (h : o.name ≠ [⟨"packed", false⟩]) :
    setsPacked o = false := by
  rw [setsPacked, decide_eq_false h, Bool.false_and]

/-- The flag for packing is set to what is written. -/
theorem scalarValue?_flag {types : List Declaration} {slot : Slot} {o : UninterpretedOption}
    {value : Wire.Value} (hcode : slot.field.typeCode = boolCode)
    (h : scalarValue? types slot o = some value) : value = flagValue (o.identifier = some "true") := by
  have hbool : scalarValue? types slot o = o.identifier.bind bool? := by
    unfold scalarValue?
    rw [hcode]
    rfl
  rw [hbool] at h
  obtain ⟨text, htext, h⟩ := Option.bind_eq_some_iff.mp h
  rw [bool?_eq_some h, htext]
  simp only [Option.some.injEq]

/-! ### Setting options -/

namespace Context
variable {c : Context} {type : MessageType}

/-- What options of fields are interpreted with, as usual. -/
structure Usual (c : Context) (type : MessageType) : Prop where
  name : type.name = Target.field.messageName
  message : UsualMessage type.dialect type.message
  types : Options.Usual c.types
  view : Options.Usual c.view.declarations

theorem Usual.slot? (h : Usual c type) {part : NamePart} {slot : Slot} (hslot : c.slot? type part = some slot) :
    UsualSlot slot ∧ (slot.number = packedNumber ↔ part = ⟨"packed", false⟩) := by
  unfold Context.slot? at hslot
  split at hslot
  · rename_i hextension
    obtain ⟨d, hd, hslot⟩ := Option.bind_eq_some_iff.mp hslot
    have hin := List.mem_of_find?_eq_some (Pool.resolve?_eq_some hd).1
    obtain ⟨husual, hapart⟩ := usual_extensionSlot h.view h.name hin hslot
    refine ⟨husual, iff_of_false hapart ?_⟩
    rintro rfl
    cases hextension
  · rename_i hfield
    obtain ⟨x, hx, rfl⟩ := Option.map_eq_some_iff.mp hslot
    have hin := List.mem_of_find?_eq_some hx
    have hname : x.name = part.text := by simpa using List.find?_some hx
    have hnumber : (type.fieldSlot x).number = packedNumber ↔ x.number = packedNumber := by
      have hnat : (type.fieldSlot x).number = x.number.toNat := rfl
      have hpos : packedNumber = 2 := rfl
      omega
    refine ⟨usual_fieldSlot h.message hin, ?_⟩
    rw [hnumber, ← (h.message.2 x hin).1, hname]
    obtain ⟨text, isExtension⟩ := part
    simpa using fun _ => hfield

theorem Usual.slotOfNumber? (h : Usual c type) {n : Nat} {slot : Slot}
    (hslot : type.slotOfNumber? c.types n = some slot) : UsualSlot slot ∧ slot.number = n := by
  unfold MessageType.slotOfNumber? at hslot
  split at hslot
  · rename_i found hfound
    cases Option.some.inj hslot
    obtain ⟨x, hx, rfl⟩ := Option.map_eq_some_iff.mp hfound
    have hnumber : x.number = n := by simpa using List.find?_some hx
    refine ⟨usual_fieldSlot h.message (List.mem_of_find?_eq_some hx), ?_⟩
    have hnat : (type.fieldSlot x).number = x.number.toNat := rfl
    omega
  · obtain ⟨d, hd, hslot⟩ := List.exists_of_findSome?_eq_some hslot
    obtain ⟨hslot, hnumber⟩ := Option.filter_eq_some_iff.mp hslot
    have hnumber : slot.field.number = n := by simpa using hnumber
    refine ⟨(usual_extensionSlot h.types h.name hd hslot).1, ?_⟩
    have hnat : slot.number = slot.field.number.toNat := rfl
    omega

theorem not_isGroup_value? {slot : Slot} (hslot : UsualSlot slot) {o : UninterpretedOption}
    {value : Wire.Value} (h : c.value? slot o = some value) : ¬value.IsGroup := by
  unfold value? at h
  split at h
  · obtain ⟨_, _, h⟩ := Option.bind_eq_some_iff.mp h
    obtain ⟨_, _, h⟩ := Option.bind_eq_some_iff.mp h
    obtain ⟨_, _, h⟩ := Option.bind_eq_some_iff.mp h
    cases Option.some.inj h
    exact not_isGroup_messageValue hslot.form _
  · exact not_isGroup_scalarValue? h

theorem value?_flag {slot : Slot} (hslot : UsualSlot slot) (hnumber : slot.number = packedNumber)
    {o : UninterpretedOption} {value : Wire.Value} (h : c.value? slot o = some value) :
    value = flagValue (o.identifier = some "true") := by
  rw [value?, hslot.holdsMessages hnumber, if_neg Bool.false_ne_true] at h
  exact scalarValue?_flag (hslot.flag hnumber).1 h

end Context

theorem mem_addValue {types : List Declaration} {slot : Slot} {values : List Wire.Value}
    {value v : Wire.Value} (h : v ∈ slot.addValue types values value) : v ∈ values ∨ v = value := by
  unfold Slot.addValue at h
  split at h
  · exact (List.mem_append.mp h).imp List.mem_of_mem_filter List.mem_singleton.mp
  · exact (List.mem_append.mp h).imp_right List.mem_singleton.mp

namespace Tracks
variable {b : Bool} {content content' : Content} {c : Context} {type : MessageType}

theorem add? (h : Tracks b content) (htype : UsualMessage type.dialect type.message)
    {types : List Declaration} {slot : Slot} (hslot : slot.number ≠ packedNumber) {value : Wire.Value}
    (hvalue : ¬value.IsGroup) (hadd : type.add? types slot [value] content = some content') :
    Tracks b content' := by
  unfold MessageType.add? at hadd
  split at hadd
  · cases Option.some.inj hadd
    refine h.assign htype hslot fun v hv => ?_
    rcases mem_addValue hv with hv | rfl
    · exact h.values _ v hv
    · exact hvalue
  · split at hadd
    · cases hadd
    · cases Option.some.inj hadd
      exact h.assign htype hslot (List.forall_mem_singleton.mpr hvalue)

/-- The flag is set if it has not been set before. -/
theorem addPacked (h : Tracks b content) {types : List Declaration} {slot : Slot} (hslot : UsualSlot slot)
    (hnumber : slot.number = packedNumber) {flag : Bool}
    (hadd : type.add? types slot [flagValue flag] content = some content') :
    Tracks flag content' ∧ b = false := by
  obtain ⟨-, hsingle, hpresence, hown, honeof⟩ := hslot.flag hnumber
  simp only [MessageType.add?, hsingle, Bool.false_eq_true, if_false] at hadd
  split at hadd
  · cases hadd
  · rename_i hunset
    cases Option.some.inj hadd
    have hnone : content.values? packedNumber = none := by
      rw [Slot.isSet, hnumber] at hunset
      split at hunset
      · rw [hpresence] at hunset
        exact absurd rfl hunset
      · assumption
    have halone : type.assign slot [flagValue flag] content = content.set packedNumber [flagValue flag] := by
      simp only [MessageType.assign, MessageType.siblings, hown, honeof, hnumber, Bool.false_eq_true,
        if_false, List.foldl_nil]
    rw [halone]
    exact h.setPacked hnone flag

/-- An option of one part sets the flag if that part is the one for packing, and else leaves it alone. -/
theorem setPart? (h : Tracks b content) (hc : c.Usual type) {o : UninterpretedOption} {part : NamePart}
    (hname : o.name = [part]) (hset : c.set? o type [part] content = some content') :
    Tracks (b || setsPacked o) content' := by
  obtain ⟨slot, hslot, hset⟩ := Option.bind_eq_some_iff.mp hset
  obtain ⟨value, hvalue, hadd⟩ := Option.bind_eq_some_iff.mp hset
  obtain ⟨husual, hpart⟩ := hc.slot? hslot
  by_cases hnumber : slot.number = packedNumber
  · cases Context.value?_flag husual hnumber hvalue
    obtain ⟨htracks, hfirst⟩ := h.addPacked husual hnumber hadd
    have hsets : setsPacked o = decide (o.identifier = some "true") := by
      rw [setsPacked, hname, hpart.mp hnumber, decide_eq_true rfl, Bool.true_and]
    rwa [hfirst, Bool.false_or, hsets]
  · have hother : o.name ≠ [⟨"packed", false⟩] := by
      rw [hname]
      exact fun heq => hnumber (hpart.mpr (List.singleton_inj.mp heq))
    rw [setsPacked_of_ne hother, Bool.or_false]
    exact h.add? hc.message hnumber (Context.not_isGroup_value? husual hvalue) hadd

/-- An option of several parts leads into a message, which the flag is not. -/
theorem setWithin? (h : Tracks b content) (hc : c.Usual type) {o : UninterpretedOption}
    {part next : NamePart} {more : List NamePart}
    (hset : c.set? o type (part :: next :: more) content = some content') : Tracks b content' := by
  obtain ⟨slot, hslot, hset⟩ := Option.bind_eq_some_iff.mp hset
  obtain ⟨husual, -⟩ := hc.slot? hslot
  split at hset
  · cases hset
  · rename_i hholds
    obtain ⟨_, _, hset⟩ := Option.bind_eq_some_iff.mp hset
    obtain ⟨_, _, hset⟩ := Option.bind_eq_some_iff.mp hset
    obtain ⟨_, _, hset⟩ := Option.bind_eq_some_iff.mp hset
    cases Option.some.inj hset
    have hapart : slot.number ≠ packedNumber := by
      intro hnumber
      rw [husual.holdsMessages hnumber, Bool.not_false, Bool.or_true] at hholds
      exact hholds rfl
    exact h.assign hc.message hapart
      (List.forall_mem_singleton.mpr (not_isGroup_messageValue husual.form _))

/-- An option that is written sets the flag if it is the one for packing, and nothing else does. -/
theorem set? (h : Tracks b content) (hc : c.Usual type) {o : UninterpretedOption}
    (hset : c.set? o type o.name content = some content') : Tracks (b || setsPacked o) content' := by
  cases hname : o.name with
  | nil =>
    have hother : o.name ≠ [⟨"packed", false⟩] := by simp [hname]
    rw [hname] at hset
    cases Option.some.inj hset
    rwa [setsPacked_of_ne hother, Bool.or_false]
  | cons part more =>
    cases more with
    | nil => exact h.setPart? hc hname (hname ▸ hset)
    | cons next more =>
      have hother : o.name ≠ [⟨"packed", false⟩] := by simp [hname]
      rw [setsPacked_of_ne hother, Bool.or_false]
      exact h.setWithin? hc (hname ▸ hset)

/-- All options that are written, each after the one before it. -/
theorem set?_all (hc : c.Usual type) {written : List UninterpretedOption} (h : Tracks b content)
    (hset : written.foldlM (fun content o => c.set? o type o.name content) content = some content') :
    Tracks (b || written.any setsPacked) content' := by
  induction written generalizing b content with
  | nil =>
    cases Option.some.inj hset
    rwa [List.any_nil, Bool.or_false]
  | cons o written ih =>
    obtain ⟨next, ho, hrest⟩ := Option.bind_eq_some_iff.mp hset
    rw [List.any_cons, ← Bool.or_assoc]
    exact ih (h.set? hc ho) hrest

end Tracks

/-! ### Reading what is there at first -/

theorem not_isGroup_scalars? {slot : Slot} {value : Wire.Value} {values : List Wire.Value}
    (h : slot.scalars? value = some values) : ∀ v ∈ values, ¬v.IsGroup := by
  have hmap {xs : List Nat} {make : Nat → Wire.Value} (hmake : ∀ n, ¬(make n).IsGroup) :
      ∀ v ∈ xs.map make, ¬v.IsGroup := List.forall_mem_map.mpr fun n _ => hmake n
  unfold Slot.scalars? at h
  split at h
  case h_4 =>
    split at h
    · cases Option.some.inj h
      exact List.forall_mem_singleton.mpr id
    · cases h
  case h_6 =>
    split at h
    · unfold Slot.packedValues? at h
      split at h
      case h_4 => cases h
      all_goals
        obtain ⟨xs, _, rfl⟩ := Option.map_eq_some_iff.mp h
        exact hmap fun _ => id
    · cases h
  case h_7 => cases h
  all_goals
    cases Option.some.inj h
    exact List.forall_mem_singleton.mpr id

namespace Tracks
variable {b : Bool} {content content' : Content} {c : Context} {type : MessageType}

/-- Taking in bytes under another number leaves the flag alone. -/
theorem receive? (h : Tracks b content) (hc : c.Usual type) {normal? : MessageType → Bytes → Option Bytes}
    {number : Nat} {bytes : Bytes} (hnumber : number ≠ packedNumber)
    (hreceive : type.receive? c.types normal? content ⟨number, .bytes bytes⟩ = some content') :
    Tracks b content' := by
  have hold := h.values number
  unfold MessageType.receive? at hreceive
  dsimp only at hreceive
  split at hreceive
  · cases Option.some.inj hreceive
    exact h.set hnumber (List.forall_mem_append.mpr ⟨hold, List.forall_mem_singleton.mpr id⟩)
  · rename_i slot hslot
    obtain ⟨husual, hsame⟩ := hc.slotOfNumber? hslot
    obtain ⟨values, hvalues, hreceive⟩ := Option.bind_eq_some_iff.mp hreceive
    cases Option.some.inj hreceive
    refine h.assign hc.message (hsame ▸ hnumber) ?_
    unfold Slot.receive? at hvalues
    split at hvalues
    · obtain ⟨_, _, hvalues⟩ := Option.bind_eq_some_iff.mp hvalues
      split at hvalues
      · obtain ⟨_, _, hvalues⟩ := Option.bind_eq_some_iff.mp hvalues
        cases Option.some.inj hvalues
        intro v hv
        rcases mem_addValue hv with hv | rfl
        · exact hold v hv
        · exact not_isGroup_messageValue husual.form _
      · obtain ⟨_, _, hvalues⟩ := Option.bind_eq_some_iff.mp hvalues
        cases Option.some.inj hvalues
        exact List.forall_mem_singleton.mpr (not_isGroup_messageValue husual.form _)
    · obtain ⟨new, hnew, hvalues⟩ := Option.bind_eq_some_iff.mp hvalues
      cases Option.some.inj hvalues
      have hscalars := not_isGroup_scalars? hnew
      split
      · exact List.forall_mem_append.mpr ⟨hold, hscalars⟩
      · exact hscalars

end Tracks

/-- Before anything is interpreted, no option of a source is set. -/
theorem tracks_start {c : Context} {type : MessageType} (hc : c.Usual type)
    {options : Descriptor.Options} (hknown : options.known = []) {start : Content}
    (h : type.readContent? c.types (options.bytes .field) = some start) : Tracks false start := by
  have hbytes : options.bytes .field = Wire.bytesOf
      (options.uninterpreted.map fun o => ⟨uninterpretedNumber, .bytes o.bytes⟩) := by
    simp only [Options.bytes, hknown, List.lookup_nil, Option.map_none, List.filterMap_none, List.nil_append]
  rw [MessageType.readContent?, readContentWithin?] at h
  obtain ⟨fields, hfields, h⟩ := Option.bind_eq_some_iff.mp h
  rw [hbytes] at hfields
  have hread := Wire.readFields?_written (List.forall_mem_map.mpr fun _ _ => id) hfields
  refine foldlM_keeps_some h tracks_empty fun f hf content content' hcontent hreceive => ?_
  obtain ⟨written, hwritten, hf⟩ := exists_of_forall₂_right hread hf
  obtain ⟨o, _, rfl⟩ := List.mem_map.mp hwritten
  obtain ⟨number, value⟩ := f
  cases hf.number
  cases hf.bytes _ rfl
  exact hcontent.receive? hc (by decide) hreceive

/-! ### Writing and reading back -/

theorem mem_fieldsOf {types : List Declaration} {type : MessageType} {e : Entry} {f : Wire.Field}
    (h : f ∈ type.fieldsOf types e) :
    f.number = e.number ∧ (f.value ∈ e.values ∨ ∃ bytes, f.value = .bytes bytes) := by
  have hplain (h : f ∈ e.values.map (⟨e.number, ·⟩)) :
      f.number = e.number ∧ (f.value ∈ e.values ∨ ∃ bytes, f.value = .bytes bytes) := by
    obtain ⟨v, hv, rfl⟩ := List.mem_map.mp h
    exact ⟨rfl, .inl hv⟩
  unfold MessageType.fieldsOf at h
  dsimp only at h
  split at h
  · split at h
    · cases h
    · split at h
      · cases List.mem_singleton.mp h
        exact ⟨rfl, .inr ⟨_, rfl⟩⟩
      · exact hplain h
  · exact hplain h

/-- The flag is written as it is. -/
theorem fieldsOf_packed {c : Context} {type : MessageType} (hc : c.Usual type) {e : Entry}
    (he : e.number = packedNumber) : type.fieldsOf c.types e = e.values.map (⟨e.number, ·⟩) := by
  unfold MessageType.fieldsOf
  dsimp only
  split
  · rename_i slot hslot
    obtain ⟨husual, hsame⟩ := hc.slotOfNumber? hslot
    obtain ⟨-, hsingle, hpresence, -, -⟩ := husual.flag (hsame.trans he)
    have hunpacked : slot.isPacked = false := by
      rw [Slot.isPacked, hsingle, Bool.false_and, Bool.false_and]
    simp only [hpresence, hunpacked, Bool.not_true, Bool.false_and, Bool.false_eq_true, if_false]
  · rfl

end SchemaTree.Options

namespace SchemaTree.Descriptor

theorem Options.flag_set (options : Options) (number : Nat) (b : Bool) :
    (options.set number (flagValue b)).flag number = b := by
  have hnone : (options.known.filter (·.1 != number)).lookup number = none := by
    rw [List.lookup_eq_none_iff]
    intro p hp
    have hne : p.1 ≠ number := by simpa using (List.mem_filter.mp hp).2
    simpa using hne.symm
  have hlookup : (options.set number (flagValue b)).known.lookup number = some (flagValue b) := by
    rw [Options.set, List.lookup_append, hnone, Option.none_or, List.lookup_cons_self]
  rw [Options.flag, hlookup]
  cases b <;> rfl

theorem Options.flag_set_of_ne (options : Options) {number other : Nat} (h : number ≠ other)
    (value : Wire.Value) : (options.set other value).flag number = options.flag number := by
  have hfilter : (options.known.filter (·.1 != other)).lookup number = options.known.lookup number := by
    induction options.known with
    | nil => rfl
    | cons p known ih =>
      rw [List.filter_cons, List.lookup_cons]
      split
      · rw [List.lookup_cons, ih]
      · rename_i heq
        have hother : p.1 = other := by simpa using heq
        rw [ih, hother, beq_false_of_ne h]
  have hlookup : (options.set other value).known.lookup number = options.known.lookup number := by
    rw [Options.set, List.lookup_append, hfilter, List.lookup_cons, beq_false_of_ne h, List.lookup_nil,
      Option.or_none]
  rw [Options.flag, hlookup, Options.flag]

/-- A flag that some items of a list set and the others leave alone. -/
theorem flag_of_foldlM {σ τ : Type} {step : σ → τ → Option σ} (flag : σ → Bool) (sets : τ → Bool) {b : Bool}
    {xs : List τ} {s s' : σ}
    (hstep : ∀ x ∈ xs, ∀ s s', step s x = some s' → flag s' = if sets x then b else flag s)
    (h : xs.foldlM step s = some s') : flag s' = if xs.any sets then b else flag s := by
  induction xs generalizing s with
  | nil =>
    cases Option.some.inj h
    rfl
  | cons x xs ih =>
    obtain ⟨hx, hxs⟩ := List.forall_mem_cons.mp hstep
    obtain ⟨next, hnext, h⟩ := Option.bind_eq_some_iff.mp h
    rw [ih hxs h, hx s next hnext, List.any_cons]
    cases sets x <;> cases xs.any sets <;> rfl

/-- Of the fields on the wire of an options message of a field, those with the number of `packed` decide the
flag if they agree. -/
theorem readOptions?_flag {b : Bool} {budget : Nat} {fields : List Wire.Field} {options : Options}
    (hgroups : ∀ f ∈ fields, ¬f.value.IsGroup)
    (hpacked : ∀ f ∈ fields, f.number = packedNumber → f.value = flagValue b)
    (h : readOptions? .field {} budget (Wire.bytesOf fields) = some options) :
    options.flag packedNumber = (fields.any (·.number = packedNumber) && b) := by
  obtain ⟨read, hread, h⟩ := Option.bind_eq_some_iff.mp h
  have hfields := Wire.readFields?_written hgroups hread
  have hnumbers : read.any (·.number = packedNumber) = fields.any (·.number = packedNumber) := by
    have hmap : read.map (·.number) = fields.map (·.number) :=
      map_eq_of_forall₂ hfields fun _ _ hfg => hfg.number
    simpa [List.any_map, Function.comp_def] using congrArg (List.any · (· = packedNumber)) hmap
  have hflag := flag_of_foldlM (b := b) (fun o : Options => o.flag packedNumber)
    (fun f : Wire.Field => f.number = packedNumber) ?_ h
  · rw [hnumbers] at hflag
    rw [hflag]
    cases fields.any (·.number = packedNumber) <;> rfl
  · intro g hg start next hnext
    obtain ⟨f, hf, hfg⟩ := exists_of_forall₂_right hfields hg
    by_cases hnumber : g.number = packedNumber
    · have hvalue : g.value = flagValue b :=
        hfg.varint _ (hpacked f hf (hfg.number ▸ hnumber))
      have hlookup : Target.field.known.lookup packedNumber = some .bool := rfl
      have hother : packedNumber ≠ uninterpretedNumber := by decide
      simp only [hnumber, hvalue, hlookup, hother, if_false, OptionType.value?, flag?_flagValue,
        Option.map_some, Option.some.injEq] at hnext
      rw [← hnext, start.flag_set, hnumber, decide_eq_true rfl, if_pos rfl]
    · rw [decide_eq_false hnumber, if_neg Bool.false_ne_true]
      split at hnext
      · obtain ⟨_, _, rfl⟩ := Option.map_eq_some_iff.mp hnext
        rfl
      · split at hnext
        · obtain ⟨value, _, rfl⟩ := Option.map_eq_some_iff.mp hnext
          exact start.flag_set_of_ne (Ne.symm hnumber) value
        · rw [skip_eq_some hnext]

end SchemaTree.Descriptor

namespace SchemaTree.Options
open Descriptor

/-- The flag comes back when the contents are written and read again. -/
theorem Tracks.flag_eq {b : Bool} {content : Content} (h : Tracks b content) {c : Context}
    {type : MessageType} (hc : c.Usual type) {budget : Nat} {options : Descriptor.Options}
    (hread : readOptions? .field {} budget (type.bytesOf c.types content) = some options) :
    options.flag packedNumber = b := by
  have hflag (e : Entry) (he : e ∈ content.entries) (hnumber : e.number = packedNumber) :
      type.fieldsOf c.types e = [⟨packedNumber, flagValue b⟩] := by
    rw [fieldsOf_packed hc hnumber, h.packed e he hnumber, hnumber]
    rfl
  rw [MessageType.bytesOf] at hread
  rw [readOptions?_flag (b := b) ?groups ?packed hread]
  case groups =>
    intro f hf
    obtain ⟨e, he, hf⟩ := List.mem_flatMap.mp hf
    rcases (mem_fieldsOf hf).2 with hvalue | ⟨bytes, hvalue⟩
    · exact h.groups e he _ hvalue
    · rw [hvalue]
      exact id
  case packed =>
    intro f hf hnumber
    obtain ⟨e, he, hf⟩ := List.mem_flatMap.mp hf
    rw [hflag e he ((mem_fieldsOf hf).1 ▸ hnumber)] at hf
    rw [List.mem_singleton.mp hf]
  cases b with
  | false => rw [Bool.and_false]
  | true =>
    obtain ⟨e, he, hnumber⟩ := h.present rfl
    have hin : (⟨packedNumber, flagValue true⟩ : Wire.Field) ∈ type.fieldsOf c.types e := by
      rw [hflag e he hnumber]
      exact List.mem_singleton_self _
    rw [Bool.and_true, List.any_eq_true]
    exact ⟨_, List.mem_flatMap.mpr ⟨e, he, hin⟩, decide_eq_true rfl⟩

/-- Interpreted options of a field are marked as packed if that is written among them. -/
theorem Context.interpret?_packed {c : Context} {type : MessageType} (hc : c.Usual type)
    {options options' : Descriptor.Options} (hknown : options.known = [])
    (h : c.interpret? .field type options = some options') :
    options'.flag packedNumber = options.uninterpreted.any setsPacked := by
  obtain ⟨start, hstart, h⟩ := Option.bind_eq_some_iff.mp h
  obtain ⟨content, hcontent, hread⟩ := Option.bind_eq_some_iff.mp h
  have htracks := (tracks_start hc hknown hstart).set?_all hc hcontent
  rw [Bool.false_or] at htracks
  dsimp only at hread
  split at hread
  · exact (htracks.erase (by decide)).flag_eq hc hread
  · exact htracks.flag_eq hc hread

/-- What is written of packing is what the options of a field say once they are settled. -/
theorem Environment.settle?_packed {env : Environment} (hdeclared : Usual env.declarations)
    (hstandard : Usual env.standard) {scope : String} {options options' : Descriptor.Options}
    (hknown : options.known = [])
    (h : env.settle? .field scope (some options) = some (some options')) :
    options'.flag packedNumber = options.uninterpreted.any setsPacked := by
  simp only [settle?] at h
  have htypes : Usual (if (messageType? env.declarations Target.field.messageName).isSome then
      env.declarations else env.standard) := by
    split
    · exact hdeclared
    · exact hstandard
  split at h
  · rename_i type htype
    obtain ⟨_, hinterpret, heq⟩ := Option.map_eq_some_iff.mp h
    cases heq
    refine Context.interpret?_packed ⟨messageType?_name htype, htypes.messageType htype, htypes, ?_⟩
      hknown hinterpret
    exact hdeclared
  · cases h

end SchemaTree.Options
