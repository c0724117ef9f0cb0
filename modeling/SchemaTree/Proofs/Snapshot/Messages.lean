import SchemaTree.Proofs.Pool.EnumOrder
import SchemaTree.Proofs.Pool.Link
import SchemaTree.Snapshot

/-!
# What a snapshot takes up and when it fails

The messages of a snapshot are those of the file, read in the order of `messageTree`, each with its
fields by ascending number. In a linked pool no field is in the way: the only cause of failure is a
message nested too deeply.
-/

namespace SchemaTree

/-! ### All messages of a snapshot -/

namespace Schema

mutual

/-- A message and all messages nested in it, each before those nested in it. -/
def Message.tree : Message → List Message
  | m@⟨_, _, _, messages, _⟩ => m :: Message.trees messages

def Message.trees : List Message → List Message
  | [] => []
  | m :: ms => Message.tree m ++ Message.trees ms

end

def File.messageTree (file : File) : List Message := Message.trees file.messages

end Schema

namespace Snapshot
open Descriptor
open Pool (Declaration)
open Schema (DefaultValue Dialect)

/-! ### Fields by number -/

theorem insertField_perm (x : Field) (fields : List Field) :
    (insertField x fields).Perm (x :: fields) := by
  induction fields with
  | nil => rfl
  | cons y ys ih =>
    simp only [insertField]
    split
    · rfl
    · exact (ih.cons y).trans (.swap x y ys)

theorem orderedFields_perm (fields : List Field) : (orderedFields fields).Perm fields := by
  induction fields with
  | nil => rfl
  | cons x xs ih => exact (insertField_perm x (orderedFields xs)).trans (ih.cons x)

theorem insertField_ascending {fields : List Field} (x : Field)
    (h : fields.Pairwise fun a b => a.number ≤ b.number) :
    (insertField x fields).Pairwise fun a b => a.number ≤ b.number := by
  induction fields with
  | nil => simp [insertField]
  | cons y ys ih =>
    obtain ⟨hy, hys⟩ := List.pairwise_cons.mp h
    simp only [insertField]
    split
    · rename_i hle
      refine List.pairwise_cons.mpr ⟨?_, h⟩
      intro z hz
      rcases List.mem_cons.mp hz with rfl | hz
      · exact hle
      · exact Int.le_trans hle (hy z hz)
    · rename_i hlt
      refine List.pairwise_cons.mpr ⟨?_, ih hys⟩
      intro z hz
      rcases List.mem_cons.mp ((insertField_perm x ys).mem_iff.mp hz) with rfl | hz
      · omega
      · exact hy z hz

theorem orderedFields_ascending (fields : List Field) :
    (orderedFields fields).Pairwise fun a b => a.number ≤ b.number := by
  induction fields with
  | nil => exact .nil
  | cons x _ ih => exact insertField_ascending x ih

/-! ### Fields that are taken up -/

/-- A valid field number fits into 32 bits. -/
theorem number_of_field {x : Field} (h : Pool.isFieldNumber x.number = true) :
    ((UInt32.ofNat x.number.toNat).toNat : Int) = x.number := by
  simp only [Pool.isFieldNumber, Bool.and_eq_true, decide_eq_true_eq] at h
  have hlow : 1 ≤ x.number := h.1.1
  have hhigh : x.number ≤ 536870911 := h.1.2
  rw [UInt32.toNat_ofNat_of_lt' (by simp only [UInt32.size]; omega)]
  omega

theorem field_same {ds : List Declaration} {file scope : String} {dialect : Dialect} {x : Field}
    {y : Schema.Field} (h : field ds file scope dialect x = .ok y)
    (hnumber : Pool.isFieldNumber x.number = true) :
    y.name = x.name ∧ (y.number.toNat : Int) = x.number := by
  obtain ⟨_, _, h⟩ := bind_eq_ok h
  cases h
  exact ⟨rfl, number_of_field hnumber⟩

/-! ### Messages that are taken up -/

/-- A message under its full name and its snapshot: the fields are the snapshots of its fields by
number. -/
structure Shown (ds : List Declaration) (file : String) (dialect : Dialect) (p : String × Message)
    (s : Schema.Message) : Prop where
  name : s.name = p.2.name
  fullName : s.fullName = p.1
  fields : List.Forall₂ (fun x y => field ds file p.1 dialect x = .ok y) (orderedFields p.2.fields)
    s.fields
  enums : s.enums = p.2.enums.map enum

mutual

theorem message_shown {ds : List Declaration} {file : String} {dialect : Dialect} :
    ∀ (scope : String) (level : Nat) (m : Message) (s : Schema.Message),
      message ds file dialect scope level m = .ok s →
        List.Forall₂ (Shown ds file dialect) (Message.tree scope m) (Schema.Message.tree s)
  | scope, level, ⟨name, fields, _, messages, enums, _, _, _, _, _⟩, s, h => by
    simp only [message] at h
    split at h
    · cases h
    · obtain ⟨shown, hfields, h⟩ := bind_eq_ok h
      obtain ⟨nested, hnested, h⟩ := bind_eq_ok h
      cases h
      exact .cons ⟨rfl, rfl, forall₂_of_mapM_ok hfields, rfl⟩
        (messageList_shown (qualify scope name) (level + 1) messages nested hnested)

theorem messageList_shown {ds : List Declaration} {file : String} {dialect : Dialect} :
    ∀ (scope : String) (level : Nat) (ms : List Message) (ss : List Schema.Message),
      messageList ds file dialect scope level ms = .ok ss →
        List.Forall₂ (Shown ds file dialect) (Message.trees scope ms) (Schema.Message.trees ss)
  | _, _, [], ss, h => by
    cases h
    exact .nil
  | scope, level, m :: ms, ss, h => by
    simp only [messageList] at h
    obtain ⟨first, hfirst, h⟩ := bind_eq_ok h
    obtain ⟨rest, hrest, h⟩ := bind_eq_ok h
    cases h
    exact List.rel_append (message_shown scope level m first hfirst)
      (messageList_shown scope level ms rest hrest)

end

theorem file_shown {ds : List Declaration} {f : File} {s : Schema.File} (h : file ds f = .ok s) :
    s.name = f.name ∧
      List.Forall₂ (Shown ds f.name (Pool.dialectOf f)) f.messageTree s.messageTree := by
  obtain ⟨messages, hmessages, h⟩ := bind_eq_ok h
  cases h
  exact ⟨rfl, messageList_shown _ _ _ _ hmessages⟩

/-! ### Causes of failure -/

/-- The value of a field that holds an enum is the number of one of the values of that enum. -/
theorem value_enum {ds : List Declaration} {x : Field} {e : Enum} (hcode : x.typeCode = enumCode)
    (he : Pool.enum? ds (referent x.typeName) = some e) (hne : e.values ≠ []) :
    ∃ v ∈ e.values, value ds x = .enum v.number := by
  have himplied : Pool.impliedValue ds x = .enum (e.values.head hne).number := by
    simp [Pool.impliedValue, hcode, he, List.head?_eq_some_head hne]
  unfold value
  split
  · exact ⟨_, List.head_mem hne, himplied⟩
  · unfold Pool.defaultValue
    cases hdeclared : x.defaultText.bind (Pool.declaredValue? ds x) with
    | none => exact ⟨_, List.head_mem hne, himplied⟩
    | some declared =>
      obtain ⟨text, _, hread⟩ := Option.bind_eq_some_iff.mp hdeclared
      rw [Pool.declaredValue?, if_pos hcode, he, Option.bind_some, Pool.namedNumber?,
        Option.map_map] at hread
      obtain ⟨v, hv, rfl⟩ := Option.map_eq_some_iff.mp hread
      exact ⟨v, List.mem_of_find?_eq_some hv, rfl⟩

/-- The default of a field that holds an enum is what some number is shown as. -/
theorem default_enum (ds : List Declaration) (file fullName : String) {x : Field}
    (h : x.typeCode = enumCode) :
    ∃ number, default ds file fullName x = enumDefault ds file fullName x number := by
  obtain ⟨implied, himplied⟩ : ∃ implied, Pool.impliedValue ds x = .enum implied := ⟨_, if_pos h⟩
  have hdeclared (text : String) : Pool.declaredValue? ds x text =
      ((Pool.enum? ds (referent x.typeName)).bind (Pool.namedNumber? · text)).map .enum := if_pos h
  unfold default value Pool.defaultValue
  rw [himplied]
  split_ifs
  · exact ⟨implied, rfl⟩
  · cases x.defaultText with
    | none => exact ⟨implied, rfl⟩
    | some text =>
      rw [Option.bind_some, hdeclared]
      cases (Pool.enum? ds (referent x.typeName)).bind (Pool.namedNumber? · text) with
      | none => exact ⟨implied, rfl⟩
      | some number => exact ⟨number, rfl⟩

/-- The default of any other field: the declared one of a single value, else the zero of its type, if that
is a scalar type. -/
theorem default_scalar {ds : List Declaration} {file fullName : String} {x : Field}
    (h : x.typeCode ≠ enumCode) : default ds file fullName x = .ok
      (((if x.label = .repeated then none else x.defaultText.bind (Pool.scalarDefault? x.typeCode)).or
        (Pool.Scalar.zero? x.typeCode)).elim .absent scalarDefault) := by
  have himplied : Pool.impliedValue ds x = (Pool.Scalar.zero? x.typeCode).elim .message .scalar :=
    if_neg h
  have hdeclared (text : String) : Pool.declaredValue? ds x text =
      (Pool.scalarDefault? x.typeCode text).map .scalar := if_neg h
  unfold default value Pool.defaultValue
  rw [himplied]
  split_ifs
  · cases Pool.Scalar.zero? x.typeCode <;> rfl
  · cases x.defaultText with
    | none => cases Pool.Scalar.zero? x.typeCode <;> rfl
    | some text =>
      rw [Option.bind_some, Option.bind_some, hdeclared]
      cases Pool.scalarDefault? x.typeCode text with
      | some declared => rfl
      | none => cases Pool.Scalar.zero? x.typeCode <;> rfl

/-- A field has a default unless it holds an enum that is not there or has no values. -/
theorem default_ok {ds : List Declaration} {x : Field} (file fullName : String)
    (h : x.typeCode = enumCode →
      ∃ e, Pool.enum? ds (referent x.typeName) = some e ∧ e.values ≠ []) :
    ∃ value, default ds file fullName x = .ok value := by
  by_cases hcode : x.typeCode = enumCode
  · obtain ⟨e, he, hne⟩ := h hcode
    obtain ⟨v, hv, hvalue⟩ := value_enum hcode he hne
    obtain ⟨w, _, _, hw⟩ := Pool.numberedValue?_declared e hv
    simp only [default, hvalue, enumDefault, he, hw]
    exact ⟨_, rfl⟩
  · exact ⟨_, default_scalar hcode⟩

theorem field_ok {ds : List Declaration} {x : Field} (file scope : String) (dialect : Dialect)
    (h : ∃ value, default ds file (qualify scope x.name) x = .ok value) :
    ∃ y, field ds file scope dialect x = .ok y := by
  obtain ⟨value, hvalue⟩ := h
  rw [field, hvalue]
  exact ⟨_, rfl⟩

/-- A failure comes from a message that is nested too deeply or from one of the fields. -/
def Cause (ds : List Declaration) (file : String) (dialect : Dialect) (tree : List (String × Message))
    (failure : Failure) : Prop :=
  (∃ entity, failure = .tooDeep file entity limit) ∨
    ∃ p ∈ tree, ∃ x ∈ p.2.fields, field ds file p.1 dialect x = .error failure

theorem Cause.mono {ds : List Declaration} {file : String} {dialect : Dialect}
    {tree larger : List (String × Message)} {failure : Failure}
    (h : Cause ds file dialect tree failure) (hsub : ∀ p ∈ tree, p ∈ larger) :
    Cause ds file dialect larger failure := by
  rcases h with h | ⟨p, hp, h⟩
  · exact .inl h
  · exact .inr ⟨p, hsub p hp, h⟩

mutual

theorem message_cause {ds : List Declaration} {file : String} {dialect : Dialect} :
    ∀ (scope : String) (level : Nat) (m : Message) (failure : Failure),
      message ds file dialect scope level m = .error failure →
        Cause ds file dialect (Message.tree scope m) failure
  | scope, level, ⟨name, fields, _, messages, enums, _, _, _, _, _⟩, failure, h => by
    simp only [message] at h
    split at h
    · cases h
      exact .inl ⟨_, rfl⟩
    · rcases bind_eq_error h with h | ⟨_, _, h⟩
      · obtain ⟨x, hx, h⟩ := exists_of_mapM_error h
        exact .inr ⟨_, List.mem_cons_self, x, (orderedFields_perm fields).mem_iff.mp hx, h⟩
      · rcases bind_eq_error h with h | ⟨_, _, h⟩
        · exact (messageList_cause _ _ messages failure h).mono fun p hp =>
            List.mem_cons_of_mem _ hp
        · cases h

theorem messageList_cause {ds : List Declaration} {file : String} {dialect : Dialect} :
    ∀ (scope : String) (level : Nat) (ms : List Message) (failure : Failure),
      messageList ds file dialect scope level ms = .error failure →
        Cause ds file dialect (Message.trees scope ms) failure
  | _, _, [], _, h => by cases h
  | scope, level, m :: ms, failure, h => by
    simp only [messageList] at h
    rcases bind_eq_error h with h | ⟨_, _, h⟩
    · exact (message_cause scope level m failure h).mono fun p hp => List.mem_append_left _ hp
    · rcases bind_eq_error h with h | ⟨_, _, h⟩
      · exact (messageList_cause scope level ms failure h).mono fun p hp =>
          List.mem_append_right _ hp
      · cases h

end

/-- Linking has found the enum of every field that holds one, so no field of a linked file fails. -/
theorem linked_field_ok {pool : Pool} {new : List File} (h : ({} : Pool).link? new = some pool)
    {f : File} (hf : f ∈ pool.files) {p : String × Message} (hp : p ∈ f.messageTree) {x : Field}
    (hx : x ∈ p.2.fields) : ∃ y, field pool.declarations f.name p.1 (Pool.dialectOf f) x = .ok y :=
  field_ok f.name p.1 _ (default_ok f.name (qualify p.1 x.name) (Pool.enum_of_field h hf hp hx))

/-- In a linked pool only the nesting of messages can be in the way of a snapshot. -/
theorem linked_failure {pool : Pool} {new : List File} (h : ({} : Pool).link? new = some pool)
    {f : File} (hf : f ∈ pool.files) {failure : Failure}
    (hfail : file pool.declarations f = .error failure) :
    ∃ entity, failure = .tooDeep f.name entity limit := by
  rcases bind_eq_error hfail with hfail | ⟨_, _, hfail⟩
  · rcases messageList_cause _ _ _ _ hfail with hdeep | ⟨p, hp, x, hx, hfield⟩
    · exact hdeep
    · obtain ⟨y, hy⟩ := linked_field_ok h hf hp hx
      rw [hy] at hfield
      cases hfield
  · cases hfail

end Snapshot
end SchemaTree
