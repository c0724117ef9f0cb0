import SchemaTree.Proofs.Source.Lockstep
import SchemaTree.Proofs.Source.Numbers
import SchemaTree.Snapshot

/-!
# The keyword before a field

A second reading of a source notes before which fields the word `optional` stands. It reads the same messages
as the first one, and a field is noted exactly if it counts as optional by its label, its choice and its
dialect. Only the messages for the entries of maps are not written down anywhere; none of their fields is
noted, but in proto2 they count as optional.
-/

namespace SchemaTree.Source
open Descriptor (Field Label Message Options)
open Schema (Dialect)
open Token.Parser

/-! ### A second reading -/

/-- Notes of the fields of a message from some place on whether they were declared with the keyword. -/
def noteFields (place : Nat) (isOptional : Bool) (d : Message) : Message :=
  { d with fields := d.fields.take place ++
      (d.fields.drop place).map fun x => { x with isProto3Optional := isOptional } }

/-- Takes an item of a message, and notes of the fields that it declares whether it begins with the
keyword. The members of a choice are in an item that begins otherwise, and have no keyword of their own. -/
def notedItem (dialect : Dialect) (body : Token.Parser Message) (d : Message) : Token.Parser Message := do
  let first ← peek
  let d' ← messageItem dialect body d
  pure (noteFields d.fields.length (first = some (.word "optional")) d')

def notedBody (dialect : Dialect) : (fuel : Nat) → Token.Parser Message
  | 0 => refuse
  | fuel + 1 => block (notedItem dialect (notedBody dialect fuel)) {}

def notedFile (name : String) : Token.Parser Descriptor.File := do
  let word ← dialectStatement
  let dialect ← match word with
    | none | some "proto2" => pure .proto2
    | some "proto3" => pure .proto3
    | some _ => refuse
  let fuel ← remaining
  fileItems dialect (notedBody dialect fuel) fuel { name, dialect := word }

/-- Reads a source so that the proto3 flag of a field tells in either dialect whether it was declared with
the keyword. -/
def readNoted? (name source : String) : Option Descriptor.File := do
  let tokens ← Token.readSource? source
  let (file, _) ← notedFile name tokens
  some file

/-! ### Noted messages -/

/-- Whether a message was made up for the entries of a map. -/
def IsEntry (d : Message) : Prop := d.options = some (Options.ofFlag Descriptor.mapEntryNumber)

/-- The note of a field tells whether the field counts as optional. -/
structure NotesField (dialect : Dialect) (x z : Field) : Prop where
  name : z.name = x.name
  number : z.number = x.number
  note : z.isProto3Optional = Snapshot.isOptional dialect x
  flag : dialect = .proto2 → x.isProto3Optional = false
  label : Snapshot.isOptional dialect x = true → x.label = .optional

/-- A field as it is read, outside of any choice. -/
structure ReadAs (label : Label) (isProto3Optional : Bool) (x : Field) : Prop where
  label : x.label = label
  oneofIndex : x.oneofIndex = none
  flag : x.isProto3Optional = isProto3Optional

/-- Whether the options of a message are those that a source can set. -/
def IsWritten (options : Option Options) : Prop := ∀ o ∈ options, o.known = []

/-- A message and the same message with notes. -/
inductive Notes (dialect : Dialect) : Message → Message → Prop
  | written {d k : Message} (name : k.name = d.name)
      (fields : List.Forall₂ (NotesField dialect) d.fields k.fields)
      (messages : List.Forall₂ (Notes dialect) d.messages k.messages)
      (options : k.options = d.options) (isWritten : IsWritten d.options) : Notes dialect d k
  | entry {d : Message} (isEntry : IsEntry d) (fields : ∀ x ∈ d.fields, ReadAs .optional false x)
      (messages : d.messages = []) : Notes dialect d d

/-- The parts of a field in both readings. -/
structure SameParts (dialect : Dialect) (P : Field → Prop) (a b : FieldParts) : Prop where
  field : b.field = a.field
  own : P a.field
  messages : List.Forall₂ (Notes dialect) a.message.toList b.message.toList

theorem Notes.rename {dialect : Dialect} {d k : Message} (h : Notes dialect d k) (name : String) :
    Notes dialect { d with name } { k with name } := by
  cases h with
  | written _ fields messages options isWritten => exact .written rfl fields messages options isWritten
  | entry isEntry fields messages => exact .entry isEntry fields messages

theorem SameParts.imp {dialect : Dialect} {P Q : Field → Prop} {a b : FieldParts}
    (h : SameParts dialect P a b) (himp : ∀ x, P x → Q x) : SameParts dialect Q a b :=
  ⟨h.field, himp _ h.own, h.messages⟩

/-! ### Fields -/

theorem applySettings_readAs {dialect : Dialect} {label : Label} {flag : Bool} {x : Field}
    {settings : List Setting} (hx : ReadAs label flag x) :
    Yields (ReadAs label flag) (applySettings dialect x settings) := by
  refine applySettings_changes.imp ?_
  rintro y ⟨_, _, _, _, rfl⟩
  exact ⟨hx.label, hx.oneofIndex, hx.flag⟩

theorem plainField_readAs {dialect : Dialect} {label : Label} {isOptional : Bool} :
    Yields (fun parts => ReadAs label (isOptional && dialect = .proto3) parts.field ∧ parts.message = none)
      (plainField dialect label isOptional) := by
  unfold plainField
  refine yields_then fun type => yields_then fun name => yields_then fun _ => yields_then fun number => ?_
  refine yields_then fun _ => yields_then fun _ => ?_
  have hstart : ReadAs label false { name, number, label, typeCode := type.1, typeName := type.2 } :=
    ⟨rfl, rfl, rfl⟩
  refine yields_bind (applySettings_readAs hstart) fun x hx => yields_pure ⟨?_, rfl⟩
  exact ⟨hx.label, hx.oneofIndex, rfl⟩

theorem mapField_readAs {dialect : Dialect} :
    Yields (fun parts => ReadAs .repeated false parts.field ∧
      ∀ m ∈ parts.message, Notes dialect m m) (mapField dialect) := by
  unfold mapField
  refine yields_then fun _ => yields_then fun key => ?_
  dsimp only
  refine yields_ite ?_ yields_refuse_then
  refine yields_then fun _ => yields_then fun value => ?_
  refine yields_then fun _ => yields_then fun name => yields_then fun _ => yields_then fun number => ?_
  refine yields_then fun _ => ?_
  have hstart : ReadAs .repeated false
      { name, number, label := .repeated, typeCode := 11, typeName := entryName name } := ⟨rfl, rfl, rfl⟩
  refine yields_bind (applySettings_readAs hstart) fun x hx => yields_pure ⟨hx, ?_⟩
  intro m hm
  cases Option.some.inj hm
  refine .entry rfl ?_ rfl
  exact List.forall_mem_cons.mpr ⟨⟨rfl, rfl, rfl⟩, List.forall_mem_singleton.mpr ⟨rfl, rfl, rfl⟩⟩

theorem plainField_follows {dialect : Dialect} {label : Label} {isOptional : Bool}
    {P : List Token → Prop} :
    Follows P (SameParts dialect (ReadAs label (isOptional && dialect = .proto3)))
      (plainField dialect label isOptional) (plainField dialect label isOptional) := by
  intro ts _ parts rest hparts
  obtain ⟨hx, hnone⟩ := plainField_readAs ts parts rest hparts
  exact ⟨parts, hparts, rfl, hx, by rw [hnone]; exact .nil⟩

/-! ### Declarations of fields -/

/-- Whether a field counts as optional in its dialect. -/
structure CountsAs (dialect : Dialect) (isOptional : Bool) (x : Field) : Prop where
  counts : Snapshot.isOptional dialect x = isOptional
  flag : dialect = .proto2 → x.isProto3Optional = false
  label : isOptional = true → x.label = .optional

theorem countsAs_plain {dialect : Dialect} {label : Option Label} {x : Field}
    (hx : ReadAs (label.getD .optional) (label = some .optional && dialect = .proto3) x)
    (hlabel : ¬(label = none ∧ dialect = .proto2)) :
    CountsAs dialect (label = some .optional) x := by
  have hcounts := hx.label
  have hflag := hx.flag
  constructor
  · rw [Snapshot.isOptional, hx.oneofIndex, hcounts, hflag]
    cases dialect with
    | proto3 => simp
    | proto2 =>
      cases label with
      | none => exact absurd ⟨rfl, rfl⟩ hlabel
      | some l => cases l <;> rfl
  · rintro rfl
    simpa using hflag
  · intro hoptional
    rw [hcounts, decide_eq_true_eq.mp hoptional]
    rfl

theorem countsAs_repeated {dialect : Dialect} {x : Field} (hx : ReadAs .repeated false x) :
    CountsAs dialect false x := by
  refine ⟨?_, fun _ => hx.flag, nofun⟩
  rw [Snapshot.isOptional, hx.label, hx.flag]
  simp

/-- Whether tokens begin with the keyword. -/
def Begins (isOptional : Bool) (ts : List Token) : Prop :=
  decide (ts.head? = some (.word "optional")) = isOptional

theorem follows_begins {R : α → β → Prop} {x : Token.Parser α} {y : Token.Parser β}
    (h : ∀ isOptional, Follows (Begins isOptional) R x y) : Follows Anywhere R x y :=
  fun ts _ => h _ ts rfl

theorem label?_eq (ts : List Token) : ∃ label rest, label? ts = some (label, rest) ∧
    (label = some .optional ↔ ts.head? = some (.word "optional")) := by
  unfold label?
  simp only [acceptWord_bind, if_true, Bool.false_eq_true, if_false]
  split
  · rename_i h
    exact ⟨_, _, rfl, by simp [h]⟩
  · rename_i h
    split
    · exact ⟨_, _, rfl, by simp [h]⟩
    · split
      · exact ⟨_, _, rfl, by simp [h]⟩
      · exact ⟨_, _, rfl, by simp [h]⟩

theorem follows_label? {R : α → β → Prop} {isOptional : Bool} {f : Option Label → Token.Parser α}
    {g : Option Label → Token.Parser β}
    (h : ∀ label : Option Label, decide (label = some .optional) = isOptional →
      Follows Anywhere R (f label) (g label)) :
    Follows (Begins isOptional) R (label? >>= f) (label? >>= g) := by
  intro ts hts a rest ha
  obtain ⟨label, rest', hlabel, hoptional⟩ := label?_eq ts
  have hsame : decide (label = some .optional) = isOptional := by
    rw [← hts]
    exact decide_eq_decide.mpr hoptional
  change (label? ts).bind _ = _ at ha
  change ∃ b, (label? ts).bind _ = _ ∧ _
  rw [hlabel, Option.bind_some] at ha ⊢
  exact h label hsame rest' trivial a rest ha

section
variable {dialect : Dialect} {body body' : Token.Parser Message} {P : List Token → Prop}
  (hbody : Follows Anywhere (Notes dialect) body body')
include hbody

/-- Only proto2 has groups. -/
theorem group_follows {label : Label} :
    Follows P (SameParts dialect fun x => dialect = .proto2 ∧ ReadAs label false x)
      (group dialect label body) (group dialect label body') := by
  unfold group
  dsimp only
  refine follows_unless fun hdialect => ?_
  have hproto2 : dialect = .proto2 := by
    cases dialect with
    | proto2 => rfl
    | proto3 => exact absurd rfl hdialect
  refine follows_then fun name => ?_
  refine follows_ite ?_ follows_refuse_then
  refine follows_then fun _ => follows_then fun number => follows_then fun settings => ?_
  refine follows_bind hbody fun m k hmk => ?_
  have hstart : ReadAs label false
      { name := Text.lower name, number, label, typeCode := 10, typeName := name } := ⟨rfl, rfl, rfl⟩
  refine follows_yields (applySettings_readAs hstart) fun x hx => follows_pure ⟨rfl, ⟨hproto2, hx⟩, ?_⟩
  exact .cons (hmk.rename name) .nil

/-- A field counts as optional if its declaration begins with the keyword. -/
theorem labelledField_follows {isOptional isExtension : Bool} :
    Follows (Begins isOptional) (SameParts dialect (CountsAs dialect isOptional))
      (labelledField dialect isExtension body) (labelledField dialect isExtension body') := by
  unfold labelledField
  refine follows_label? fun label hlabel => follows_then fun _ => ?_
  dsimp only
  refine follows_ite ?map ?_
  case map =>
    refine follows_unless fun hnone => ?_
    have hoptional : isOptional = false := by
      rw [← hlabel]
      cases label with
      | none => rfl
      | some l => simp at hnone
    refine follows_then fun _ => follows_yields mapField_readAs fun parts hparts => ?_
    refine follows_then fun _ => follows_pure ⟨rfl, ?_, ?_⟩
    · rw [hoptional]
      exact countsAs_repeated hparts.1
    · exact List.forall₂_same.mpr fun m hm => hparts.2 m (by simpa using hm)
  refine follows_unless fun hnone => ?_
  refine follows_ite follows_refuse_then ?_
  refine follows_then fun isGroup => follows_ite ?_ ?_
  · refine (group_follows hbody).imp fun a b hab => hab.imp fun x hx => ?_
    obtain ⟨rfl, hx⟩ := hx
    rw [← hlabel]
    exact countsAs_plain (by simpa using hx) hnone
  · refine plainField_follows.imp fun a b hab => hab.imp fun x hx => ?_
    rw [← hlabel]
    exact countsAs_plain hx hnone

/-- A member of a choice is declared without a label. -/
theorem oneofField_follows : Follows P (SameParts dialect fun x => x.isProto3Optional = false)
    (oneofField dialect body) (oneofField dialect body') := by
  unfold oneofField
  refine follows_then fun label => ?_
  dsimp only
  refine follows_ite follows_refuse_then ?_
  refine follows_then fun _ => follows_ite follows_refuse_then ?_
  refine follows_then fun _ => follows_ite ?_ ?_
  · exact (group_follows hbody).imp fun a b hab => hab.imp fun x hx => hx.2.flag
  · exact plainField_follows.imp fun a b hab => hab.imp fun x hx => by simpa using hx.flag

theorem extensions_follows : Follows P
    (fun a b => b.fields = a.fields ∧ List.Forall₂ (Notes dialect) a.messages b.messages)
    (extensions dialect body) (extensions dialect body') := by
  unfold extensions
  refine follows_then fun extendee => follows_block ?_ ⟨rfl, .nil⟩
  rintro a b ⟨hfields, hmessages⟩
  refine follows_then fun _ => follows_ite (follows_pure ⟨hfields, hmessages⟩) ?_
  have hfield : Follows Anywhere (SameParts dialect fun _ => True) (labelledField dialect true body)
      (labelledField dialect true body') := follows_begins fun _ =>
    (labelledField_follows hbody).imp fun _ _ hparts => hparts.imp fun _ _ => trivial
  refine follows_bind hfield fun parts parts' hparts => follows_pure ⟨?_, ?_⟩
  · rw [hfields, hparts.field]
  · exact List.rel_append hmessages hparts.messages

end

/-! ### Items of messages -/

/-- A message and the same message with notes before their synthetic choices are added. -/
structure Underway (dialect : Dialect) (d k : Message) : Prop where
  name : k.name = d.name
  fields : List.Forall₂ (NotesField dialect) d.fields k.fields
  messages : List.Forall₂ (Notes dialect) d.messages k.messages
  oneofs : k.oneofs = d.oneofs
  options : k.options = d.options
  isWritten : IsWritten d.options

/-- What one item makes of both messages: they get the same new fields. -/
structure Adds (dialect : Dialect) (isOptional : Bool) (d k d' k' : Message) : Prop where
  name : k'.name = d'.name
  fields : ∃ xs, d'.fields = d.fields ++ xs ∧ k'.fields = k.fields ++ xs ∧
    ∀ x ∈ xs, CountsAs dialect isOptional x
  messages : List.Forall₂ (Notes dialect) d'.messages k'.messages
  oneofs : k'.oneofs = d'.oneofs
  options : k'.options = d'.options
  isWritten : IsWritten d'.options

section
variable {dialect : Dialect} {isOptional : Bool} {d k d' k' : Message}

theorem Underway.adds (h : Underway dialect d k) : Adds dialect isOptional d k d k :=
  ⟨h.name, ⟨[], by simp⟩, h.messages, h.oneofs, h.options, h.isWritten⟩

theorem Adds.addMessages (h : Adds dialect isOptional d k d' k') {ms ms' : List Message}
    (hms : List.Forall₂ (Notes dialect) ms ms') : Adds dialect isOptional d k
      { d' with messages := d'.messages ++ ms } { k' with messages := k'.messages ++ ms' } :=
  ⟨h.name, h.fields, List.rel_append h.messages hms, h.oneofs, h.options, h.isWritten⟩

theorem Adds.addField (h : Adds dialect isOptional d k d' k') {x : Field} {m m' : Option Message}
    (hx : CountsAs dialect isOptional x) (hm : List.Forall₂ (Notes dialect) m.toList m'.toList) :
    Adds dialect isOptional d k (addField d' ⟨x, m⟩) (addField k' ⟨x, m'⟩) := by
  obtain ⟨xs, hd, hk, hxs⟩ := h.fields
  have hfields : ∀ y ∈ xs ++ [x], CountsAs dialect isOptional y :=
    List.forall_mem_append.mpr ⟨hxs, List.forall_mem_singleton.mpr hx⟩
  refine ⟨h.name, ⟨xs ++ [x], ?_, ?_, hfields⟩, List.rel_append h.messages hm, h.oneofs, h.options,
    h.isWritten⟩
  · simp [Source.addField, hd]
  · simp [Source.addField, hk]

end

theorem optionStatement_written {options : Option Options} (h : IsWritten options) :
    Yields IsWritten (optionStatement options) := by
  unfold optionStatement
  refine yields_then fun _ => yields_then fun _ => ?_
  split
  · refine yields_pure ?_
    intro o ho
    cases Option.some.inj ho
    cases options with
    | none => rfl
    | some o => exact h o rfl
  · exact yields_refuse

section
variable {dialect : Dialect} {body body' : Token.Parser Message} {P : List Token → Prop}
  (hbody : Follows Anywhere (Notes dialect) body body')
include hbody

theorem oneof_follows {d k : Message} (h : Underway dialect d k) :
    Follows P (Adds dialect false d k) (oneof dialect body d) (oneof dialect body' k) := by
  unfold oneof
  refine follows_then fun name => ?_
  dsimp only
  rw [h.oneofs]
  refine follows_bind (R := fun s t => t.2 = s.2 ∧ Adds dialect false d k s.1 t.1)
    (follows_block ?_ ⟨rfl, h.adds⟩) ?_
  · rintro ⟨a, options⟩ ⟨b, _⟩ ⟨rfl, hab⟩
    refine follows_then fun _ => follows_ite (follows_pure ⟨rfl, hab⟩) ?_
    refine follows_then fun _ => follows_ite (follows_then fun _ => follows_pure ⟨rfl, hab⟩) ?_
    refine follows_bind (oneofField_follows hbody) fun parts parts' hparts => follows_pure ⟨rfl, ?_⟩
    rw [hparts.field]
    refine hab.addField ?_ hparts.messages
    refine ⟨?_, fun _ => hparts.own, nofun⟩
    simp [Snapshot.isOptional, hparts.own]
  · rintro ⟨a, options⟩ ⟨b, _⟩ ⟨rfl, hab⟩
    obtain ⟨xs, ha, hb, hxs⟩ := hab.fields
    -- The choice has members in one reading if it has some in the other.
    have hcount : a.fields.length = d.fields.length ↔ b.fields.length = k.fields.length := by
      rw [ha, hb, List.length_append, List.length_append]
      omega
    dsimp only
    by_cases hnone : a.fields.length = d.fields.length
    · rw [if_pos hnone]
      exact follows_refuse_then
    · rw [if_neg hnone, if_neg (mt hcount.mpr hnone)]
      refine follows_pure ⟨hab.name, ⟨xs, ha, hb, hxs⟩, hab.messages, ?_, hab.options, hab.isWritten⟩
      exact congrArg (· ++ [_]) hab.oneofs

/-- The fields that an item adds count as optional if it begins with the keyword. -/
theorem messageItem_follows {isOptional : Bool} {d k : Message} (h : Underway dialect d k) :
    Follows (Begins isOptional) (Adds dialect isOptional d k) (messageItem dialect body d)
      (messageItem dialect body' k) := by
  have hadds : Adds dialect isOptional d k d k := h.adds
  unfold messageItem
  refine follows_accept (follows_pure hadds) ?_
  refine follows_acceptWord (fun _ => ?message) ?_
  case message =>
    refine follows_then fun name => follows_bind hbody fun m m' hm => follows_pure ?_
    exact hadds.addMessages (.cons (hm.rename name) .nil)
  refine follows_acceptWord (fun _ => ?enum) ?_
  case enum =>
    refine follows_then fun e => follows_pure ?_
    exact ⟨h.name, hadds.fields, h.messages, h.oneofs, h.options, h.isWritten⟩
  refine follows_acceptWord (fun _ => ?extend) ?_
  case extend =>
    refine follows_bind (extensions_follows hbody) fun x x' hx => follows_pure ?_
    obtain ⟨name, fields, messages, oneofs, options, isWritten⟩ := hadds.addMessages hx.2
    exact ⟨name, fields, messages, oneofs, options, isWritten⟩
  refine follows_acceptWord (fun _ => ?extensions) ?_
  case extensions =>
    refine follows_then fun ranges => follows_pure ?_
    exact ⟨h.name, hadds.fields, h.messages, h.oneofs, h.options, h.isWritten⟩
  refine follows_acceptWord (fun _ => ?reserved) ?_
  case reserved =>
    refine follows_then fun r => follows_pure ?_
    exact ⟨h.name, hadds.fields, h.messages, h.oneofs, h.options, h.isWritten⟩
  refine follows_acceptWord (fun _ => ?option) ?_
  case option =>
    rw [h.options]
    refine follows_yields (optionStatement_written h.isWritten) fun options hoptions => follows_pure ?_
    exact ⟨h.name, hadds.fields, h.messages, h.oneofs, rfl, hoptions⟩
  refine follows_acceptWord ?oneof ?_
  case oneof =>
    rintro ⟨ts, hts, hword⟩
    have hplain : isOptional = false := by
      rw [← hts, hword]
      decide
    rw [hplain]
    exact oneof_follows hbody h
  refine follows_bind (labelledField_follows hbody) fun parts parts' hparts => follows_pure ?_
  obtain ⟨x, m⟩ := parts
  obtain ⟨x', m'⟩ := parts'
  have hsame : x' = x := hparts.field
  rw [hsame]
  exact hadds.addField hparts.own hparts.messages

end

/-! ### Messages -/

theorem noteFields_append (d : Message) (fields : List Field) (isOptional : Bool) {xs : List Field}
    (h : d.fields = fields ++ xs) : (noteFields fields.length isOptional d).fields =
      fields ++ xs.map fun x => { x with isProto3Optional := isOptional } := by
  rw [noteFields, h, List.take_left, List.drop_left]

theorem notedItem_follows {dialect : Dialect} {body body' : Token.Parser Message} {d k : Message}
    (hbody : Follows Anywhere (Notes dialect) body body') (h : Underway dialect d k) :
    Follows Anywhere (Underway dialect) (messageItem dialect body d) (notedItem dialect body' k) := by
  intro ts _ d' rest hd'
  obtain ⟨k', hk', hadds⟩ := messageItem_follows hbody h ts rfl d' rest hd'
  obtain ⟨xs, hd, hk, hxs⟩ := hadds.fields
  refine ⟨noteFields k.fields.length (ts.head? = some (.word "optional")) k', ?_, ?_⟩
  · change (messageItem dialect body' k ts).bind _ = _
    rw [hk']
    rfl
  · refine ⟨hadds.name, ?_, hadds.messages, hadds.oneofs, hadds.options, hadds.isWritten⟩
    rw [hd, noteFields_append k' k.fields _ hk]
    refine List.rel_append h.fields (List.forall₂_map_right_iff.mpr (List.forall₂_same.mpr ?_))
    intro x hx
    obtain ⟨hcounts, hflag, hlabel⟩ := hxs x hx
    exact ⟨rfl, rfl, hcounts.symm, hflag, fun h => hlabel (hcounts.symm.trans h)⟩

/-- A choice of its own does not change what a field of proto3 counts as. -/
theorem NotesField.inOneof {dialect : Dialect} {x z : Field} (h : NotesField dialect x z)
    (hflag : x.isProto3Optional = true) (index : Int) :
    NotesField dialect { x with oneofIndex := some index } z := by
  have hcounts : Snapshot.isOptional dialect x = true := by simp [Snapshot.isOptional, hflag]
  refine ⟨h.name, h.number, ?_, h.flag, fun _ => h.label hcounts⟩
  rw [h.note]
  simp [Snapshot.isOptional, hflag]

theorem addSyntheticOneofs_fields {dialect : Dialect} {d : Message} {zs : List Field}
    (h : List.Forall₂ (NotesField dialect) d.fields zs) :
    List.Forall₂ (NotesField dialect) (addSyntheticOneofs d).fields zs := by
  -- The fields that are done stand first, and each step adds one to them.
  have hsteps (step : List Field × List Descriptor.Oneof → Field → List Field × List Descriptor.Oneof)
      (hstep : ∀ done x ws z, List.Forall₂ (NotesField dialect) done.1 ws → NotesField dialect x z →
        List.Forall₂ (NotesField dialect) (step done x).1 (ws ++ [z]))
      (xs zs : List Field) (hxs : List.Forall₂ (NotesField dialect) xs zs)
      (done : List Field × List Descriptor.Oneof) (ws : List Field)
      (hdone : List.Forall₂ (NotesField dialect) done.1 ws) :
      List.Forall₂ (NotesField dialect) (xs.foldl step done).1 (ws ++ zs) := by
    induction hxs generalizing done ws with
    | nil => rwa [List.foldl_nil, List.append_nil]
    | @cons x z xs zs hx _ ih =>
      rw [List.foldl_cons, List.append_cons]
      exact ih (step done x) (ws ++ [z]) (hstep done x ws z hdone hx)
  refine hsteps _ ?_ d.fields zs h ([], d.oneofs) [] .nil
  intro done x ws z hdone hx
  dsimp only
  split
  · rename_i hflag
    exact List.rel_append hdone (.cons (hx.inOneof hflag _) .nil)
  · exact List.rel_append hdone (.cons hx .nil)

theorem messageBody_follows (dialect : Dialect) (fuel : Nat) :
    Follows Anywhere (Notes dialect) (messageBody dialect fuel) (notedBody dialect fuel) := by
  have hstart : Underway dialect {} {} := ⟨rfl, .nil, .nil, rfl, rfl, fun _ ho => by cases ho⟩
  induction fuel with
  | zero => exact follows_refuse
  | succ fuel ih =>
    unfold messageBody notedBody
    have hblock : Follows Anywhere (Underway dialect) (block (messageItem dialect (messageBody dialect fuel)) {})
        (block (notedItem dialect (notedBody dialect fuel)) {}) :=
      follows_block (fun _ _ h => notedItem_follows ih h) hstart
    refine hblock.change fun d k h => ?_
    exact .written h.name (addSyntheticOneofs_fields h.fields) h.messages h.options h.isWritten

/-! ### Files -/

/-- A file of a dialect and the same file with notes in its messages. -/
def FileNotes (dialect : Dialect) (d k : Descriptor.File) : Prop :=
  Pool.dialectOf d = dialect ∧
    ∃ messages, k = { d with messages } ∧ List.Forall₂ (Notes dialect) d.messages messages

theorem importStatement_follows {dialect : Dialect} {d k : Descriptor.File} (h : FileNotes dialect d k) :
    Follows Anywhere (FileNotes dialect) (importStatement d) (importStatement k) := by
  obtain ⟨hdialect, messages, rfl, hmessages⟩ := h
  unfold importStatement
  refine follows_then fun _ => ?_
  dsimp only
  -- The modifier of an import decides how its name is read on, not what becomes of the messages.
  refine follows_ite (follows_then fun _ => ?_) (follows_then fun _ => ?_)
  all_goals
    refine follows_then fun _ => follows_then fun _ => ?_
    exact follows_ite follows_refuse_then (follows_pure ⟨hdialect, messages, rfl, hmessages⟩)

theorem fileItem_follows {dialect : Dialect} {body body' : Token.Parser Message} {d k : Descriptor.File}
    (hbody : Follows Anywhere (Notes dialect) body body') (h : FileNotes dialect d k) :
    Follows Anywhere (FileNotes dialect) (fileItem dialect body d) (fileItem dialect body' k) := by
  unfold fileItem
  refine follows_then fun _ => follows_ite (follows_pure h) ?_
  refine follows_then fun _ => follows_ite (importStatement_follows h) ?_
  obtain ⟨hdialect, messages, rfl, hmessages⟩ := h
  refine follows_then fun _ => follows_ite ?package ?_
  case package =>
    refine follows_then fun name => follows_then fun _ => ?_
    exact follows_ite follows_refuse_then (follows_pure ⟨hdialect, messages, rfl, hmessages⟩)
  refine follows_then fun _ => follows_ite ?option ?_
  case option => exact follows_then fun options => follows_pure ⟨hdialect, messages, rfl, hmessages⟩
  refine follows_then fun _ => follows_ite ?message ?_
  case message =>
    refine follows_then fun name => follows_bind hbody fun m m' hm => follows_pure ?_
    exact ⟨hdialect, _, rfl, List.rel_append hmessages (.cons (hm.rename name) .nil)⟩
  refine follows_then fun _ => follows_ite ?enum ?_
  case enum => exact follows_then fun e => follows_pure ⟨hdialect, messages, rfl, hmessages⟩
  refine follows_then fun _ => follows_ite ?extend ?service
  case extend =>
    refine follows_bind (extensions_follows hbody) fun x x' hx => follows_pure ?_
    rw [hx.1]
    exact ⟨hdialect, _, rfl, List.rel_append hmessages hx.2⟩
  case service =>
    exact follows_then fun _ => follows_then fun s => follows_pure ⟨hdialect, messages, rfl, hmessages⟩

theorem fileItems_follows {dialect : Dialect} {body body' : Token.Parser Message}
    (hbody : Follows Anywhere (Notes dialect) body body') (fuel : Nat) {d k : Descriptor.File}
    (h : FileNotes dialect d k) :
    Follows Anywhere (FileNotes dialect) (fileItems dialect body fuel d) (fileItems dialect body' fuel k) := by
  induction fuel generalizing d k with
  | zero =>
    unfold fileItems
    exact follows_then fun _ => follows_ite follows_refuse_then (follows_pure h)
  | succ fuel ih =>
    unfold fileItems
    refine follows_then fun _ => follows_ite (follows_pure h) ?_
    exact follows_bind (fileItem_follows hbody h) fun d' k' h' => ih h'

theorem file_follows (name : String) :
    Follows Anywhere (fun d k => FileNotes (Pool.dialectOf d) d k) (file name) (notedFile name) := by
  have hitems (dialect : Dialect) (word : Option String) (fuel : Nat)
      (hdialect : (if word = some "proto3" then Dialect.proto3 else .proto2) = dialect) :
      Follows Anywhere (fun d k => FileNotes (Pool.dialectOf d) d k)
        (fileItems dialect (messageBody dialect fuel) fuel { name, dialect := word })
        (fileItems dialect (notedBody dialect fuel) fuel { name, dialect := word }) := by
    have hstart : FileNotes dialect { name, dialect := word } { name, dialect := word } :=
      ⟨hdialect, [], rfl, .nil⟩
    refine (fileItems_follows (messageBody_follows dialect fuel) fuel hstart).imp ?_
    intro d k h
    rwa [h.1]
  unfold file notedFile
  refine follows_then fun word => ?_
  dsimp only
  split
  · refine follows_yields (yields_pure (rfl : Dialect.proto2 = .proto2)) ?_
    rintro _ rfl
    exact follows_then fun fuel => hitems _ _ fuel rfl
  · refine follows_yields (yields_pure (rfl : Dialect.proto2 = .proto2)) ?_
    rintro _ rfl
    exact follows_then fun fuel => hitems _ _ fuel (by decide)
  · refine follows_yields (yields_pure (rfl : Dialect.proto3 = .proto3)) ?_
    rintro _ rfl
    exact follows_then fun fuel => hitems _ _ fuel (by decide)
  · exact follows_refuse_then

/-- A source that is read is read with notes as well. -/
theorem readNoted?_of_read? {name source : String} {d : Descriptor.File}
    (h : read? name source = some d) :
    ∃ k, readNoted? name source = some k ∧ FileNotes (Pool.dialectOf d) d k := by
  obtain ⟨tokens, htokens, h⟩ := Option.bind_eq_some_iff.mp h
  obtain ⟨⟨_, rest⟩, hfile, h⟩ := Option.bind_eq_some_iff.mp h
  cases Option.some.inj h
  obtain ⟨k, hk, hnotes⟩ := file_follows name tokens trivial d rest hfile
  refine ⟨k, ?_, hnotes⟩
  rw [readNoted?, htokens, Option.bind_eq_bind, Option.bind_some, hk]
  rfl

/-! ### All messages of a file -/

/-- A field of a message and the field with its note: it counts as optional if it was declared with the
keyword, or if its message is one of proto2 for the entries of a map. -/
structure Optionality (dialect : Dialect) (noted : Message) (x z : Field) : Prop where
  name : z.name = x.name
  number : z.number = x.number
  counts : Snapshot.isOptional dialect x = true ↔
    z.isProto3Optional = true ∨ dialect = .proto2 ∧ IsEntry noted
  label : Snapshot.isOptional dialect x = true → x.label = .optional

theorem Notes.fields {dialect : Dialect} {d k : Message} (h : Notes dialect d k) :
    List.Forall₂ (Optionality dialect k) d.fields k.fields := by
  cases h with
  | written _ fields _ options isWritten =>
    have hwritten : ¬IsEntry k := by
      rintro hentry
      rw [IsEntry, options] at hentry
      have hknown := isWritten _ hentry
      revert hknown
      decide
    refine fields.imp fun x z hz => ⟨hz.name, hz.number, ?_, hz.label⟩
    rw [hz.note]
    simp [hwritten]
  | entry isEntry fields _ =>
    refine List.forall₂_same.mpr fun x hx => ?_
    obtain ⟨hlabel, honeof, hflag⟩ := fields x hx
    refine ⟨rfl, rfl, ?_, fun _ => hlabel⟩
    simp [Snapshot.isOptional, hlabel, honeof, hflag, isEntry]

theorem Notes.nested {dialect : Dialect} {d k : Message} (h : Notes dialect d k) :
    k.name = d.name ∧ List.Forall₂ (Notes dialect) d.messages k.messages := by
  cases h with
  | written name _ messages _ _ => exact ⟨name, messages⟩
  | entry _ _ messages =>
    rw [messages]
    exact ⟨rfl, .nil⟩

/-- A message under its full name in both readings. -/
def TreeNotes (dialect : Dialect) (p q : String × Message) : Prop :=
  q.1 = p.1 ∧ List.Forall₂ (Optionality dialect q.2) p.2.fields q.2.fields

mutual

theorem tree_noted {dialect : Dialect} : ∀ (scope : String) (d k : Message), Notes dialect d k →
    List.Forall₂ (TreeNotes dialect) (Message.tree scope d) (Message.tree scope k)
  | scope, ⟨name, _, _, messages, _, _, _, _, _, _⟩, k, h => by
    obtain ⟨hname, hmessages⟩ := h.nested
    have htree : Message.tree scope k =
        (Descriptor.qualify scope k.name, k) :: Message.trees (Descriptor.qualify scope k.name) k.messages := by
      cases k
      rfl
    rw [htree, hname]
    exact .cons ⟨rfl, h.fields⟩ (trees_noted _ messages k.messages hmessages)

theorem trees_noted {dialect : Dialect} : ∀ (scope : String) (ds ks : List Message),
    List.Forall₂ (Notes dialect) ds ks →
    List.Forall₂ (TreeNotes dialect) (Message.trees scope ds) (Message.trees scope ks)
  | _, [], _, .nil => .nil
  | scope, d :: ds, k :: ks, .cons h hs =>
    List.rel_append (tree_noted scope d k h) (trees_noted scope ds ks hs)

end

/-- The messages of both readings of a source come under the same full names. -/
theorem messageTree_noted {name source : String} {d : Descriptor.File}
    (h : read? name source = some d) : ∃ k, readNoted? name source = some k ∧
      List.Forall₂ (TreeNotes (Pool.dialectOf d)) d.messageTree k.messageTree := by
  obtain ⟨k, hk, _, messages, rfl, hmessages⟩ := readNoted?_of_read? h
  exact ⟨_, hk, trees_noted d.package d.messages messages hmessages⟩

/-- No member of a choice is declared with the keyword. -/
theorem oneofField_keyword {dialect : Dialect} {body : Token.Parser Message} {ts : List Token}
    (h : ts.head? = some (.word "optional")) : oneofField dialect body ts = none := by
  obtain ⟨label, rest, hlabel, hoptional⟩ := label?_eq ts
  rw [hoptional.mpr h] at hlabel
  change (label? ts).bind _ = none
  rw [hlabel]
  rfl

end SchemaTree.Source
