import SchemaTree.Proofs.Text.Quoted
import SchemaTree.Schema.FieldLine
import SchemaTree.Text.Parts

/-!
# Texts on one line

A text stands on one line if there is no line break in it. Lines that are written one after the other,
each with a line break after it, are the parts between the line breaks exactly if each of them is on one
line. Numbers and quoted texts are.
-/

namespace SchemaTree.Text

/-! ### Parts between separators -/

/-- A part holds no separator. -/
theorem not_mem_part {separator : Char} {cs part : List Char} (h : part ∈ cs.splitOn separator) :
    separator ∉ part := by
  induction cs generalizing part with
  | nil =>
    rw [List.splitOn_nil, List.mem_singleton] at h
    rw [h]
    exact List.not_mem_nil
  | cons c cs ih =>
    rw [List.splitOn_cons_eq_if_modifyHead] at h
    split at h
    · rcases List.mem_cons.mp h with rfl | h
      · exact List.not_mem_nil
      · exact ih h
    · rename_i hne
      cases hparts : cs.splitOn separator with
      | nil => exact absurd hparts (List.splitOn_ne_nil separator cs)
      | cons first rest =>
        rw [hparts, List.modifyHead_cons] at h
        rw [hparts] at ih
        rcases List.mem_cons.mp h with rfl | h
        · intro hmem
          rcases List.mem_cons.mp hmem with rfl | hmem
          · exact hne (beq_self_eq_true _)
          · exact ih List.mem_cons_self hmem
        · exact ih (List.mem_cons_of_mem _ h)

/-- A text made up of pieces with a separator after each has these pieces and an empty text as its parts,
exactly if no piece holds a separator. -/
theorem parts_ended {separator : Char} {text : String} {pieces : List String}
    (htext : text.toList = pieces.flatMap fun piece => piece.toList ++ [separator]) :
    parts separator text = pieces ++ [""] ↔ ∀ piece ∈ pieces, separator ∉ piece.toList := by
  constructor
  · intro hparts piece hpiece
    have hmem : piece ∈ parts separator text := hparts ▸ List.mem_append_left _ hpiece
    obtain ⟨part, hpart, rfl⟩ := List.mem_map.mp hmem
    rw [String.toList_ofList]
    exact not_mem_part hpart
  · intro h
    rw [parts, htext]
    clear htext
    induction pieces with
    | nil => rfl
    | cons piece pieces ih =>
      obtain ⟨hpiece, hpieces⟩ := List.forall_mem_cons.mp h
      rw [List.flatMap_cons, List.append_assoc, List.singleton_append,
        List.splitOn_append_cons_self_of_not_mem hpiece, List.map_cons, String.ofList_toList,
        ih hpieces]
      rfl

/-! ### One line -/

/-- Whether there is no line break in a text. -/
def IsOneLine (text : String) : Prop := '\n' ∉ text.toList

instance : DecidablePred IsOneLine := fun text => inferInstanceAs (Decidable ('\n' ∉ text.toList))

theorem isOneLine_append {a b : String} : IsOneLine (a ++ b) ↔ IsOneLine a ∧ IsOneLine b := by
  rw [IsOneLine, String.toList_append, List.mem_append, not_or]
  rfl

theorem isOneLine_ofList {cs : List Char} : IsOneLine (String.ofList cs) ↔ '\n' ∉ cs := by
  rw [IsOneLine, String.toList_ofList]

/-! ### Numbers -/

theorem break_not_mem_digits (n : Nat) : '\n' ∉ Nat.toDigits 10 n :=
  fun h => absurd (isDigit_natText n '\n' h) (by decide)

theorem isOneLine_natText (n : Nat) : IsOneLine (natText n) :=
  isOneLine_ofList.mpr (break_not_mem_digits n)

theorem isOneLine_intText (n : Int) : IsOneLine (intText n) := by
  cases n with
  | ofNat n => exact isOneLine_natText n
  | negSucc n => exact isOneLine_append.mpr ⟨by decide, isOneLine_natText (n + 1)⟩

theorem isOneLine_positional (digits : Nat) (k : Int) : IsOneLine (Ieee.positional digits k) := by
  have hdigits := break_not_mem_digits digits
  have hzeros (n : Nat) : '\n' ∉ List.replicate n '0' :=
    fun h => absurd (List.eq_of_mem_replicate h) (by decide)
  unfold Ieee.positional
  dsimp only
  split
  · rename_i j
    refine isOneLine_ofList.mpr fun h => ?_
    exact (List.mem_append.mp h).elim hdigits (hzeros j)
  · split
    · refine isOneLine_ofList.mpr fun h => ?_
      rcases List.mem_append.mp h with h | h
      · exact hdigits (List.mem_of_mem_take h)
      · exact hdigits (List.mem_of_mem_drop (List.mem_of_ne_of_mem (by decide) h))
    · refine isOneLine_ofList.mpr fun h => ?_
      have h := List.mem_of_ne_of_mem (by decide) (List.mem_of_ne_of_mem (by decide) h)
      exact (List.mem_append.mp h).elim (hzeros _) hdigits

theorem isOneLine_ieee (f : Ieee.Format) (bits : Nat) : IsOneLine (Ieee.text f bits) := by
  unfold Ieee.text
  split
  · decide
  · split <;> decide
  · rename_i negative m e _
    have hmagnitude : IsOneLine (if m = 0 then "0" else
        Ieee.positional (Ieee.shortest f m e).1 (Ieee.shortest f m e).2) := by
      split
      · decide
      · exact isOneLine_positional _ _
    dsimp only
    split
    · exact isOneLine_append.mpr ⟨by decide, hmagnitude⟩
    · exact hmagnitude

theorem isOneLine_intercalate {separator : String} (hseparator : IsOneLine separator)
    {texts : List String} (h : ∀ text ∈ texts, IsOneLine text) :
    IsOneLine (separator.intercalate texts) := by
  rw [IsOneLine, String.toList_intercalate]
  induction texts with
  | nil => exact List.not_mem_nil
  | cons text texts ih =>
    obtain ⟨htext, htexts⟩ := List.forall_mem_cons.mp h
    cases texts with
    | nil =>
      rw [List.map_singleton, List.intercalate_singleton]
      exact htext
    | cons next rest =>
      rw [List.map_cons, List.map_cons, List.intercalate_cons_cons, ← List.map_cons, List.append_assoc,
        List.mem_append, List.mem_append, not_or, not_or]
      exact ⟨htext, hseparator, ih htexts⟩

theorem isOneLine_bytesText (bytes : List UInt8) : IsOneLine (Schema.DefaultValue.bytesText bytes) := by
  have hnumbers : IsOneLine (String.intercalate " " (bytes.map fun b => natText b.toNat)) := by
    refine isOneLine_intercalate (by decide) fun text htext => ?_
    obtain ⟨b, _, rfl⟩ := List.mem_map.mp htext
    exact isOneLine_natText b.toNat
  exact isOneLine_append.mpr ⟨isOneLine_append.mpr ⟨by decide, hnumbers⟩, by decide⟩

/-! ### Quoted texts -/

/-- Whatever stands between the quotes, a quoted text is on one line. -/
theorem isOneLine_quoted (text : String) : IsOneLine (quoted text) := by
  have hinner : IsOneLine (escape text) :=
    fun h => absurd (isControl_escape text '\n' h) (by decide)
  exact isOneLine_append.mpr ⟨isOneLine_append.mpr ⟨by decide, hinner⟩, by decide⟩

end SchemaTree.Text
