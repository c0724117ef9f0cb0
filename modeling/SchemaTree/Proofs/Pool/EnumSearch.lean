import Mathlib.Data.List.Rotate
import SchemaTree.Proofs.Pool.EnumOrder

/-!
# Values that share a number

Values that share a number stand next to each other, and the search for their number ends at the last of
them. A new value is put before the one the search ends at, so of the values of one number the first that
was declared stays last, and the others keep their order before it. The last one is the one that is found.
-/

namespace SchemaTree.Pool
open Descriptor

/-- The values of a number, in their order. -/
def withNumber (values : List EnumValue) (number : Int) : List EnumValue :=
  values.filter (·.number = number)

theorem withNumber_append (xs ys : List EnumValue) (number : Int) :
    withNumber (xs ++ ys) number = withNumber xs number ++ withNumber ys number :=
  List.filter_append xs ys

theorem withNumber_cons_same {v : EnumValue} {number : Int} (h : v.number = number)
    (vs : List EnumValue) : withNumber (v :: vs) number = v :: withNumber vs number := by
  simp [withNumber, h]

theorem withNumber_cons_other {v : EnumValue} {number : Int} (h : v.number ≠ number)
    (vs : List EnumValue) : withNumber (v :: vs) number = withNumber vs number := by
  simp [withNumber, h]

/-! ### The search in ascending values -/

/-- The values before, at and after the place where the search for a number ends. The number is not there
after it, and before it only if it is there at the place itself. -/
structure Split (values : List EnumValue) (number : Int) (before : List EnumValue) (v : EnumValue)
    (after : List EnumValue) : Prop where
  parts : values = before ++ v :: after
  place : searchPlace values number = before.length
  before : v.number ≠ number → withNumber before number = []
  after : withNumber after number = []

theorem searchPlace_split {values : List EnumValue} (hs : Ascending values) (hne : values ≠ [])
    (number : Int) : ∃ before v after, Split values number before v after := by
  have hb := searchPlace_bracket number hs hne
  generalize hp : searchPlace values number = place at hb
  have hplace : place < values.length := hb.inside
  have hat := List.getElem?_eq_getElem hplace
  refine ⟨values.take place, values[place], values.drop (place + 1), ?_, ?_, ?_, ?_⟩
  · rw [List.getElem_cons_drop, List.take_append_drop]
  · rw [hp, List.length_take_of_le (by omega)]
  · intro hother
    rw [withNumber, List.filter_eq_nil_iff]
    intro w hw
    obtain ⟨i, hi, rfl⟩ := List.mem_take_iff_getElem.mp hw
    have hle := hs.le (i := i) (by omega) (List.getElem?_eq_getElem (by omega)) hat
    -- There is a value before the place, so the place was passed over and is not above the number.
    obtain ⟨u, hu, hlow⟩ := hb.low (by omega)
    rw [hat] at hu
    cases Option.some.inj hu
    simp only [decide_eq_true_eq]
    omega
  · rw [withNumber, List.filter_eq_nil_iff]
    intro w hw
    obtain ⟨i, hi, rfl⟩ := List.mem_drop_iff_getElem.mp hw
    have hgreater := hb.high (place + 1 + i) _ (by omega) (List.getElem?_eq_getElem (by omega))
    simp only [decide_eq_true_eq]
    omega

/-- The place holds the last value of the number, if there is one. -/
theorem Split.at_place {values before after : List EnumValue} {number : Int} {v : EnumValue}
    (h : Split values number before v after) : values[searchPlace values number]? = some v := by
  rw [h.place, h.parts]
  simp

theorem Split.withNumber_same {values before after : List EnumValue} {number : Int} {v : EnumValue}
    (h : Split values number before v after) (heq : v.number = number) :
    withNumber values number = withNumber before number ++ [v] := by
  rw [h.parts, withNumber_append, withNumber_cons_same heq, h.after]

theorem Split.withNumber_other {values before after : List EnumValue} {number : Int} {v : EnumValue}
    (h : Split values number before v after) (hne : v.number ≠ number) :
    withNumber values number = [] := by
  rw [h.parts, withNumber_append, withNumber_cons_other hne, h.before hne, h.after]
  rfl

/-- The search finds the last value of a number. -/
theorem valueOfNumber?_eq_last {values : List EnumValue} (hs : Ascending values) (number : Int) :
    valueOfNumber? values number = (withNumber values number).getLast? := by
  by_cases hnil : values = []
  · rw [hnil]
    rfl
  · obtain ⟨before, v, after, h⟩ := searchPlace_split hs hnil number
    rw [valueOfNumber?, h.at_place, Option.filter_some]
    by_cases heq : v.number = number
    · simp [heq, h.withNumber_same heq]
    · simp [heq, h.withNumber_other heq]

/-! ### Inserting values -/

theorem withNumber_insertValue_other (values : List EnumValue) {value : EnumValue} {number : Int}
    (h : value.number ≠ number) :
    withNumber (insertValue values value) number = withNumber values number := by
  simp only [insertValue]
  rw [withNumber_append, withNumber_cons_other h, ← withNumber_append, List.take_append_drop]

/-- A new value is put right before the last one of its number. -/
theorem withNumber_insertValue_same {values : List EnumValue} (hs : Ascending values)
    {value : EnumValue} {number : Int} (hnumber : value.number = number) :
    withNumber (insertValue values value) number =
      (withNumber values number).dropLast ++ value :: (withNumber values number).getLast?.toList := by
  subst hnumber
  by_cases hnil : values = []
  · simp [hnil, insertValue, withNumber]
  obtain ⟨before, v, after, h⟩ := searchPlace_split hs hnil value.number
  by_cases heq : v.number = value.number
  · have hinsert : insertValue values value = before ++ value :: v :: after := by
      have hstays : decide (v.number < value.number) = false := decide_eq_false (by omega)
      simp only [insertValue]
      rw [h.at_place, Option.any_some, hstays, if_neg Bool.false_ne_true, h.place, h.parts,
        List.take_left, List.drop_left]
    rw [hinsert, withNumber_append, withNumber_cons_same rfl, withNumber_cons_same heq, h.after,
      h.withNumber_same heq]
    simp
  · have hnone := h.withNumber_other heq
    have hpart (part : List EnumValue) (hsub : part.Sublist values) :
        withNumber part value.number = [] :=
      List.sublist_nil.mp (hnone ▸ hsub.filter _)
    simp only [insertValue]
    rw [withNumber_append, withNumber_cons_same rfl, hpart _ (List.take_sublist _ _),
      hpart _ (List.drop_sublist _ _), hnone]
    rfl

/-- Of the values that share a number, the one declared first goes to the end, and the others stay in
the order of their declaration. -/
theorem withNumber_orderedValues (values : List EnumValue) (number : Int) :
    withNumber (orderedValues values) number = (withNumber values number).rotate 1 := by
  induction values using List.reverseRecOn with
  | nil => rfl
  | append_singleton values v ih =>
    have hsnoc : orderedValues (values ++ [v]) = insertValue (orderedValues values) v := by
      simp [orderedValues]
    rw [hsnoc, withNumber_append]
    by_cases heq : v.number = number
    · rw [withNumber_insertValue_same (orderedValues_ascending values) heq, ih,
        withNumber_cons_same heq]
      cases withNumber values number with
      | nil => simp [withNumber]
      | cons first rest => simp [withNumber, List.rotate_cons_succ]
    · rw [withNumber_insertValue_other _ heq, ih, withNumber_cons_other heq]
      simp [withNumber]

/-- Of values that share a number, the one that is declared first stands for it. -/
theorem valueOfNumber?_ordered (values : List EnumValue) (number : Int) :
    valueOfNumber? (orderedValues values) number = values.find? (·.number = number) := by
  rw [valueOfNumber?_eq_last (orderedValues_ascending values), withNumber_orderedValues,
    ← List.head?_filter]
  show _ = (withNumber values number).head?
  cases withNumber values number with
  | nil => rfl
  | cons first rest => simp [List.rotate_cons_succ]

end SchemaTree.Pool
