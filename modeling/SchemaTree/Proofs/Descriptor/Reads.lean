import SchemaTree.Descriptor.Reader
import SchemaTree.Descriptor.Writer
import SchemaTree.Proofs.Descriptor.Depth
import SchemaTree.Proofs.Wire.Bounds

/-!
# Reading back what was written, field by field

A reader of messages takes one field after the other, and each changes what has been read so far. The
lemmas here say for one kind of field each how far it takes the reader, given that the length of all of
it fits into a varint.
-/

namespace SchemaTree.Descriptor
open Wire (IsTag IsInt32)

/-- Fields whose length fits into a varint take a reader from one state to another. -/
structure Reads (step : α → Wire.Field → Option α) (fields : List Wire.Field) (a b : α) : Prop where
  fits : (Wire.bytesOf fields).length < Width.size 64 → ∀ f ∈ fields, f.Fits
  runs : (Wire.bytesOf fields).length < Width.size 64 → fields.foldlM step a = some b

theorem readMessage?_of_reads {step : α → Wire.Field → Option α} {fields : List Wire.Field} {a b : α}
    (h : Reads step fields a b) (hsize : (Wire.bytesOf fields).length < Width.size 64) :
    readMessage? step a (Wire.bytesOf fields) = some b := by
  rw [readMessage?, Wire.readFields?_bytesOf (h.fits hsize), Option.bind_eq_bind, Option.bind_some]
  exact h.runs hsize

/-! ### Sequences of fields -/

section Sequences
variable {step : α → Wire.Field → Option α} {a b c : α}

theorem reads_nil : Reads step [] a a where
  fits _ := List.forall_mem_nil _
  runs _ := rfl

theorem Reads.append {xs ys : List Wire.Field} (hxs : Reads step xs a b) (hys : Reads step ys b c) :
    Reads step (xs ++ ys) a c := by
  have hlength : (Wire.bytesOf (xs ++ ys)).length =
      (Wire.bytesOf xs).length + (Wire.bytesOf ys).length := by
    rw [Wire.bytesOf, List.flatMap_append, List.length_append]
    rfl
  constructor
  · intro hsize
    exact List.forall_mem_append.mpr ⟨hxs.fits (by omega), hys.fits (by omega)⟩
  · intro hsize
    rw [List.foldlM_append, hxs.runs (by omega)]
    exact hys.runs (by omega)

theorem Reads.cons {x : Wire.Field} {ys : List Wire.Field} (hx : Reads step [x] a b)
    (hys : Reads step ys b c) : Reads step (x :: ys) a c := hx.append hys

/-- Fields of a list, each of which adds one item to what has been read of the list. -/
theorem reads_map {field : β → Wire.Field} {xs : List β} (state : List β → α)
    (h : ∀ x ∈ xs, ∀ done, Reads step [field x] (state done) (state (done ++ [x]))) :
    Reads step (xs.map field) (state []) (state xs) := by
  have key (done : List β) : Reads step (xs.map field) (state done) (state (done ++ xs)) := by
    induction xs generalizing done with
    | nil =>
      rw [List.append_nil]
      exact reads_nil
    | cons x xs ih =>
      have hrest := ih (fun y hy => h y (List.mem_cons_of_mem x hy)) (done ++ [x])
      rw [List.append_assoc, List.singleton_append] at hrest
      exact (h x List.mem_cons_self done).cons hrest
  exact key []

end Sequences

/-! ### Single fields -/

section Fields
variable {step : α → Wire.Field → Option α} {number : Nat} {a b : α}

theorem bytes_length_lt {number : Nat} {bs : Bytes}
    (h : (Wire.bytesOf [⟨number, .bytes bs⟩]).length < Width.size 64) : bs.length < Width.size 64 := by
  simp only [Wire.bytesOf, List.flatMap_cons, List.flatMap_nil, List.append_nil, Wire.Field.bytes,
    Wire.lengthBytes, List.length_append] at h
  omega

theorem foldlM_singleton {step : α → Wire.Field → Option α} {f : Wire.Field} (h : step a f = some b) :
    [f].foldlM step a = some b := by
  rw [List.foldlM_cons, h]
  rfl

theorem reads_value {value : Wire.Value} (htag : IsTag number) (hvalue : value.Fits)
    (h : step a ⟨number, value⟩ = some b) : Reads step [⟨number, value⟩] a b where
  fits _ := List.forall_mem_singleton.mpr ⟨htag, hvalue⟩
  runs _ := foldlM_singleton h

theorem reads_bytes {bs : Bytes} (htag : IsTag number)
    (h : bs.length < Width.size 64 → step a ⟨number, .bytes bs⟩ = some b) :
    Reads step [⟨number, .bytes bs⟩] a b := by
  constructor
  · intro hsize
    have hfits : (Wire.Value.bytes bs).Fits := bytes_length_lt hsize
    exact List.forall_mem_singleton.mpr ⟨htag, hfits⟩
  · intro hsize
    exact foldlM_singleton (h (bytes_length_lt hsize))

/-! ### Texts, numbers and flags -/

theorem text?_textValue (s : String) : text? (textValue s) = some s := Wire.utf8?_textBytes s

theorem reads_text {s : String} {set : String → α} (htag : IsTag number)
    (h : step a ⟨number, textValue s⟩ = (text? (textValue s)).map set) (hset : set s = b) :
    Reads step [⟨number, textValue s⟩] a b := by
  refine reads_bytes htag fun _ => ?_
  rw [text?_textValue, Option.map_some, hset] at h
  exact h

theorem int32?_numberValue {n : Int} (hn : IsInt32 n) : int32? (numberValue n) = some n :=
  congrArg some (Wire.int32_ofInt hn)

theorem reads_number {n : Int} {set : Int → α} (htag : IsTag number) (hn : IsInt32 n)
    (h : step a ⟨number, numberValue n⟩ = (int32? (numberValue n)).map set) (hset : set n = b) :
    Reads step [⟨number, numberValue n⟩] a b := by
  refine reads_value htag (Wire.ofInt_lt n) ?_
  rw [int32?_numberValue hn, Option.map_some, hset] at h
  exact h

theorem flag?_flagValue (flag : Bool) : flag? (flagValue flag) = some flag := by
  cases flag <;> rfl

theorem flagValue_fits (flag : Bool) : (flagValue flag).Fits := by
  show (if flag then 1 else 0) < Width.size 64
  cases flag <;> decide

theorem reads_flag {flag : Bool} {set : Bool → α} (htag : IsTag number)
    (h : step a ⟨number, flagValue flag⟩ = (flag? (flagValue flag)).map set) (hset : set flag = b) :
    Reads step [⟨number, flagValue flag⟩] a b := by
  refine reads_value htag (flagValue_fits flag) ?_
  rw [flag?_flagValue, Option.map_some, hset] at h
  exact h

/-! ### Fields that may be missing -/

-- What has been read so far is changed by `update`; what is missing leaves it as it is.

theorem reads_optional {value : Option β} {write : β → Wire.Value} (update : α → Option β → α)
    (h : ∀ v, value = some v → Reads step [⟨number, write v⟩] a (update a (some v)))
    (ha : update a none = a) (hb : update a value = b) :
    Reads step (optionalField number value write) a b := by
  subst hb
  cases value with
  | none =>
    rw [ha]
    exact reads_nil
  | some v => exact h v rfl

theorem reads_textField {s : String} (update : α → String → α) (htag : IsTag number)
    (h : step a ⟨number, textValue s⟩ = (text? (textValue s)).map (update a))
    (ha : update a "" = a) (hb : update a s = b) : Reads step (textField number s) a b := by
  subst hb
  unfold textField
  split
  · rename_i hempty
    rw [hempty, ha]
    exact reads_nil
  · exact reads_text htag h rfl

theorem reads_flagField {flag : Bool} (update : α → Bool → α) (htag : IsTag number)
    (h : step a ⟨number, flagValue true⟩ = (flag? (flagValue true)).map (update a))
    (ha : update a false = a) (hb : update a flag = b) : Reads step (flagField number flag) a b := by
  subst hb
  cases flag with
  | false =>
    rw [ha]
    exact reads_nil
  | true => exact reads_flag htag h rfl

/-! ### Lists -/

theorem reads_list {field : β → Wire.Field} {xs : List β} (update : α → List β → α)
    (h : ∀ x ∈ xs, ∀ done, Reads step [field x] (update a done) (update a (done ++ [x])))
    (ha : update a [] = a) (hb : update a xs = b) : Reads step (xs.map field) a b := by
  have hreads := reads_map (update a) h
  rwa [ha, hb] at hreads

theorem reads_texts {texts : List String} (update : α → List String → α) (htag : IsTag number)
    (h : ∀ done s, step (update a done) ⟨number, textValue s⟩ =
      (text? (textValue s)).map fun s => update a (done ++ [s]))
    (ha : update a [] = a) (hb : update a texts = b) : Reads step (textFields number texts) a b :=
  reads_list update (fun s _ done => reads_text htag (h done s) rfl) ha hb

theorem reads_numbers {ns : List Int} (update : α → List Int → α) (htag : IsTag number)
    (hns : ∀ n ∈ ns, IsInt32 n)
    (h : ∀ done n, step (update a done) ⟨number, numberValue n⟩ =
      (int32s? (numberValue n)).map fun more => update a (done ++ more))
    (ha : update a [] = a) (hb : update a ns = b) : Reads step (numberFields number ns) a b := by
  refine reads_list update (fun n hn done => reads_value htag (Wire.ofInt_lt n) ?_) ha hb
  have hread : int32s? (numberValue n) = some [n] :=
    congrArg (fun n => some [n]) (Wire.int32_ofInt (hns n hn))
  rw [h done n, hread]
  rfl

/-! ### Embedded messages -/

/-- What is written of a value is read back by a reader that may still nest as many levels as the value
has. -/
def ReadsBack (read : Nat → Bytes → Option β) (depth : β → Nat) (encoded : β → Bytes) (x : β) : Prop :=
  ∀ budget, depth x ≤ budget → (encoded x).length < Width.size 64 → read budget (encoded x) = some x

theorem embedded?_of_readsBack {read : Nat → Bytes → Option β} {depth : β → Nat} {encoded : β → Bytes}
    {x : β} {budget : Nat} (h : ReadsBack read depth encoded x) (hdepth : depth x + 1 ≤ budget)
    (hsize : (encoded x).length < Width.size 64) :
    embedded? budget (.bytes (encoded x)) read = some x := by
  cases budget with
  | zero => omega
  | succ left => exact h left (by omega) hsize

theorem reads_embedded {read : Nat → Bytes → Option β} {depth : β → Nat} {encoded : β → Bytes}
    {xs : List β} {budget : Nat} (update : α → List β → α) (htag : IsTag number)
    (hxs : ∀ x ∈ xs, ReadsBack read depth encoded x) (hdepth : levelsIn depth xs ≤ budget)
    (h : ∀ done x, step (update a done) ⟨number, .bytes (encoded x)⟩ =
      (embedded? budget (.bytes (encoded x)) read).map fun y => update a (done ++ [y]))
    (ha : update a [] = a) (hb : update a xs = b) : Reads step (embeddedFields number encoded xs) a b := by
  refine reads_list update (fun x hx done => reads_bytes htag fun hsize => ?_) ha hb
  rw [h done x, embedded?_of_readsBack (hxs x hx) (levelsIn_le.mp hdepth x hx) hsize]
  rfl

end Fields
end SchemaTree.Descriptor
