import SchemaTree.Descriptor.Reader
import SchemaTree.Proofs.Wire.Bounds

/-!
# Numbers of decoded enum values

A reader changes a declaration field by field. What each field keeps, the whole message keeps: in a
decoded descriptor set every number of an enum value fits into 32 bits, at any depth of nesting.
-/

namespace SchemaTree.Descriptor
open Wire (IsInt32 isInt32_int32)

/-! ### Readers of messages -/

theorem foldlM_keeps_some {P : β → Prop} {f : β → α → Option β} {xs : List α} {b b' : β}
    (h : xs.foldlM f b = some b') (hb : P b) (hf : ∀ x ∈ xs, ∀ c c', P c → f c x = some c' → P c') :
    P b' := by
  induction xs generalizing b with
  | nil =>
    cases Option.some.inj h
    exact hb
  | cons x xs ih =>
    obtain ⟨hx, hrest⟩ := List.forall_mem_cons.mp hf
    rw [List.foldlM_cons] at h
    obtain ⟨c, hc, h⟩ := Option.bind_eq_some_iff.mp h
    exact ih h (hx b c hb hc) hrest

theorem readMessage?_keeps_inRange {P : α → Prop} {step : α → Wire.Field → Option α}
    {start result : α} {bs : Bytes} (h : readMessage? step start bs = some result) (hstart : P start)
    (hstep : ∀ a f b, f.value.InRange → P a → step a f = some b → P b) : P result := by
  obtain ⟨fields, hfields, h⟩ := Option.bind_eq_some_iff.mp h
  refine foldlM_keeps_some h hstart fun f hf a b => ?_
  exact hstep a f b (Wire.readFields?_inRange hfields f hf)

theorem readMessage?_keeps {P : α → Prop} {step : α → Wire.Field → Option α} {start result : α}
    {bs : Bytes} (h : readMessage? step start bs = some result) (hstart : P start)
    (hstep : ∀ a f b, P a → step a f = some b → P b) : P result :=
  readMessage?_keeps_inRange h hstart fun a f b _ => hstep a f b

theorem skip_eq_some {budget : Nat} {value : Wire.Value} {a b : α}
    (h : skip budget value a = some b) : b = a := by
  unfold skip at h
  split at h
  · exact (Option.some.inj h).symm
  · cases h

theorem embedded?_eq_some {budget : Nat} {value : Wire.Value} {read : Nat → Bytes → Option α} {a : α}
    (h : embedded? budget value read = some a) : ∃ left bs, read left bs = some a := by
  unfold embedded? at h
  split at h
  · exact ⟨_, _, h⟩
  · cases h

/-! ### Enums -/

theorem isInt32_of_int32? {value : Wire.Value} {n : Int} (h : int32? value = some n) : IsInt32 n := by
  unfold int32? at h
  split at h
  · rw [← Option.some.inj h]
    exact isInt32_int32 _
  · cases h

/-- Enums whose values have numbers of 32 bits. -/
def Enum.HasInt32 (e : Enum) : Prop := ∀ v ∈ e.values, IsInt32 v.number

theorem readEnumValue?_int32 {budget : Nat} {bs : Bytes} {v : EnumValue}
    (h : readEnumValue? budget bs = some v) : IsInt32 v.number := by
  refine readMessage?_keeps (P := fun v : EnumValue => IsInt32 v.number) h (by decide) ?_
  intro v f w hv h
  split at h
  · obtain ⟨_, _, rfl⟩ := Option.map_eq_some_iff.mp h
    exact hv
  · obtain ⟨n, hn, rfl⟩ := Option.map_eq_some_iff.mp h
    exact isInt32_of_int32? hn
  · obtain ⟨_, _, rfl⟩ := Option.map_eq_some_iff.mp h
    exact hv
  · rw [skip_eq_some h]
    exact hv

theorem readEnum?_int32 {budget : Nat} {bs : Bytes} {e : Enum} (h : readEnum? budget bs = some e) :
    e.HasInt32 := by
  refine readMessage?_keeps (P := Enum.HasInt32) h (fun _ hv => by cases hv) ?_
  intro d f e hd h
  split at h
  case h_2 =>
    obtain ⟨v, hv, rfl⟩ := Option.map_eq_some_iff.mp h
    obtain ⟨_, _, hv⟩ := embedded?_eq_some hv
    intro w hw
    rcases List.mem_append.mp hw with hw | hw
    · exact hd w hw
    · rw [List.mem_singleton.mp hw]
      exact readEnumValue?_int32 hv
  case h_6 =>
    rw [skip_eq_some h]
    exact hd
  all_goals
    obtain ⟨_, _, rfl⟩ := Option.map_eq_some_iff.mp h
    exact hd

/-! ### Messages and files -/

/-- Messages in which, nested ones included, the values of enums have numbers of 32 bits. -/
inductive Message.HasInt32 : Message → Prop
  | intro {m : Message} (enums : ∀ e ∈ m.enums, e.HasInt32)
      (messages : ∀ inner ∈ m.messages, Message.HasInt32 inner) : Message.HasInt32 m

theorem Message.HasInt32.addEnum {m : Message} (h : m.HasInt32) {e : Enum} (he : e.HasInt32) :
    ({ m with enums := m.enums ++ [e] } : Message).HasInt32 := by
  cases h with
  | intro henums hmessages =>
    refine .intro ?_ hmessages
    intro e' he'
    rcases List.mem_append.mp he' with he' | he'
    · exact henums e' he'
    · rwa [List.mem_singleton.mp he']

theorem Message.HasInt32.addMessage {m inner : Message} (h : m.HasInt32) (hinner : inner.HasInt32) :
    ({ m with messages := m.messages ++ [inner] } : Message).HasInt32 := by
  cases h with
  | intro henums hmessages =>
    refine .intro henums ?_
    intro m' hm'
    rcases List.mem_append.mp hm' with hm' | hm'
    · exact hmessages m' hm'
    · rwa [List.mem_singleton.mp hm']

theorem readMessageField?_int32 {budget : Nat} {nested : Bytes → Option Message} {d m : Message}
    {f : Wire.Field} (hnested : ∀ bs inner, nested bs = some inner → inner.HasInt32)
    (hd : d.HasInt32) (h : readMessageField? budget nested d f = some m) : m.HasInt32 := by
  unfold readMessageField? at h
  split at h
  case h_3 =>
    split at h
    · obtain ⟨inner, hinner, rfl⟩ := Option.map_eq_some_iff.mp h
      exact hd.addMessage (hnested _ _ hinner)
    · cases h
  case h_4 =>
    obtain ⟨e, he, rfl⟩ := Option.map_eq_some_iff.mp h
    obtain ⟨_, _, he⟩ := embedded?_eq_some he
    exact hd.addEnum (readEnum?_int32 he)
  case h_11 =>
    rw [skip_eq_some h]
    exact hd
  all_goals
    obtain ⟨_, _, rfl⟩ := Option.map_eq_some_iff.mp h
    cases hd with
    | intro henums hmessages => exact .intro henums hmessages

theorem readDeclaredMessage?_int32 (budget : Nat) {bs : Bytes} {m : Message}
    (h : readDeclaredMessage? budget bs = some m) : m.HasInt32 := by
  have hstart : Message.HasInt32 {} := .intro (by simp) (by simp)
  induction budget generalizing bs m with
  | zero =>
    refine readMessage?_keeps h hstart fun d f m hd h => ?_
    exact readMessageField?_int32 (fun _ _ hinner => by cases hinner) hd h
  | succ left ih =>
    refine readMessage?_keeps h hstart fun d f m hd h => ?_
    exact readMessageField?_int32 (fun _ _ hinner => ih hinner) hd h

/-- Files in which the values of all enums have numbers of 32 bits. -/
structure File.HasInt32 (f : File) : Prop where
  messages : ∀ m ∈ f.messages, m.HasInt32
  enums : ∀ e ∈ f.enums, e.HasInt32

theorem readFile?_int32 {budget : Nat} {bs : Bytes} {f : File} (h : readFile? budget bs = some f) :
    f.HasInt32 := by
  have hstart : File.HasInt32 {} := ⟨by simp, by simp⟩
  refine readMessage?_keeps h hstart ?_
  intro d x f hd h
  split at h
  case h_4 =>
    obtain ⟨m, hm, rfl⟩ := Option.map_eq_some_iff.mp h
    obtain ⟨left, _, hm⟩ := embedded?_eq_some hm
    refine ⟨fun m' hm' => ?_, hd.enums⟩
    rcases List.mem_append.mp hm' with hm' | hm'
    · exact hd.messages m' hm'
    · rw [List.mem_singleton.mp hm']
      exact readDeclaredMessage?_int32 left hm
  case h_5 =>
    obtain ⟨e, he, rfl⟩ := Option.map_eq_some_iff.mp h
    obtain ⟨_, _, he⟩ := embedded?_eq_some he
    refine ⟨hd.messages, fun e' he' => ?_⟩
    rcases List.mem_append.mp he' with he' | he'
    · exact hd.enums e' he'
    · rw [List.mem_singleton.mp he']
      exact readEnum?_int32 he
  case h_13 =>
    rw [skip_eq_some h]
    exact hd
  all_goals
    obtain ⟨_, _, rfl⟩ := Option.map_eq_some_iff.mp h
    exact ⟨hd.messages, hd.enums⟩

/-- In every file of a decoded set the values of all enums have numbers of 32 bits. -/
theorem readSet?_int32 {bs : Bytes} {files : List File} (h : readSet? bs = some files) :
    ∀ f ∈ files, f.HasInt32 := by
  refine readMessage?_keeps (P := fun files : List File => ∀ f ∈ files, f.HasInt32) h
    (fun _ hf => by cases hf) ?_
  intro old x new hold h
  split at h
  · obtain ⟨f, hf, rfl⟩ := Option.map_eq_some_iff.mp h
    obtain ⟨_, _, hf⟩ := embedded?_eq_some hf
    intro g hg
    rcases List.mem_append.mp hg with hg | hg
    · exact hold g hg
    · rw [List.mem_singleton.mp hg]
      exact readFile?_int32 hf
  · rw [skip_eq_some h]
    exact hold

end SchemaTree.Descriptor
