import SchemaTree.Pool.Default

/-!
# The values of an enum by number

`orderedValues` inserts the declared values one by one at the place where a binary search for their
number ends. The result holds the same values in ascending order of number, and the search finds a
value for each number that is declared, however often it is declared.
-/

namespace SchemaTree.Pool
open Descriptor

/-- Values in ascending order of number. -/
def Ascending (values : List EnumValue) : Prop := values.Pairwise fun a b => a.number ≤ b.number

theorem Ascending.le {values : List EnumValue} (hs : Ascending values) {i j : Nat} {a b : EnumValue}
    (hij : i ≤ j) (ha : values[i]? = some a) (hb : values[j]? = some b) : a.number ≤ b.number := by
  obtain ⟨hi, rfl⟩ := List.getElem?_eq_some_iff.mp ha
  obtain ⟨hj, rfl⟩ := List.getElem?_eq_some_iff.mp hb
  rcases Nat.lt_or_eq_of_le hij with h | rfl
  · exact List.pairwise_iff_getElem.mp hs i j hi hj h
  · exact Int.le_refl _

/-! ### The binary search -/

/-- What the search knows of its range of `size` places from `base` on: nothing after the range is as
small as the number, and `base` has been passed over only for a number that is not greater. -/
structure Bracket (values : List EnumValue) (number : Int) (base size : Nat) : Prop where
  inside : base + size ≤ values.length
  low : 0 < base → ∃ v, values[base]? = some v ∧ v.number ≤ number
  high : ∀ i v, base + size ≤ i → values[i]? = some v → number < v.number

theorem bracket_all (values : List EnumValue) (number : Int) :
    Bracket values number 0 values.length := by
  refine ⟨by omega, by omega, ?_⟩
  intro i v hi hv
  have hlt := (List.getElem?_eq_some_iff.mp hv).1
  omega

/-- Halving the range keeps what is known of it. -/
theorem Bracket.halve {values : List EnumValue} {number : Int} {base size : Nat}
    (hs : Ascending values) (h : Bracket values number base size) (hsize : 2 ≤ size) :
    let middle := base + size / 2
    Bracket values number (if values[middle]?.any (number < ·.number) then base else middle)
      (size - size / 2) := by
  intro middle
  have hmiddle : middle < values.length := by
    have := h.inside
    omega
  have hat : values[middle]? = some values[middle] := List.getElem?_eq_getElem hmiddle
  by_cases hgreater : number < values[middle].number
  · simp only [hat, Option.any_some, hgreater, decide_true, if_true]
    refine ⟨by have := h.inside; omega, h.low, ?_⟩
    intro i v hi hv
    exact Int.lt_of_lt_of_le hgreater (hs.le (by omega) hat hv)
  · simp only [hat, Option.any_some, hgreater, decide_false, Bool.false_eq_true, if_false]
    refine ⟨by have := h.inside; omega, fun _ => ⟨_, hat, by omega⟩, ?_⟩
    intro i v hi hv
    exact h.high i v (by omega) hv

/-- The search ends at a range of one place. -/
theorem searchBase_bracket {values : List EnumValue} {number : Int} (hs : Ascending values)
    (fuel base size : Nat) (h : Bracket values number base size) (hpos : 1 ≤ size)
    (hfuel : size ≤ fuel) : Bracket values number (searchBase values number fuel base size) 1 := by
  induction fuel generalizing base size with
  | zero => omega
  | succ fuel ih =>
    by_cases hone : size ≤ 1
    · have hsize : size = 1 := by omega
      simp only [searchBase, hone, if_true]
      rwa [hsize] at h
    · simp only [searchBase, hone, if_false]
      exact ih _ _ (h.halve hs (by omega)) (by omega) (by omega)

theorem searchPlace_bracket {values : List EnumValue} (number : Int) (hs : Ascending values)
    (hne : values ≠ []) : Bracket values number (searchPlace values number) 1 := by
  have hpos := List.length_pos_iff.mpr hne
  exact searchBase_bracket hs _ _ _ (bracket_all values number) hpos (Nat.le_refl _)

/-- A number that some value has is found. -/
theorem valueOfNumber?_isSome {values : List EnumValue} (hs : Ascending values) {v : EnumValue}
    (hv : v ∈ values) : ∃ w, valueOfNumber? values v.number = some w ∧ w ∈ values ∧
      w.number = v.number := by
  have hb := searchPlace_bracket v.number hs (List.ne_nil_of_mem hv)
  obtain ⟨i, hi⟩ := List.getElem?_of_mem hv
  have hplace : searchPlace values v.number < values.length := hb.inside
  have hat := List.getElem?_eq_getElem hplace
  have hile : i ≤ searchPlace values v.number := by
    refine Nat.le_of_not_lt fun hlt => ?_
    have := hb.high i v hlt hi
    omega
  -- The place itself is not above the number, by `low`, and not below it, by the order.
  have hle : values[searchPlace values v.number].number ≤ v.number := by
    rcases Nat.eq_zero_or_pos (searchPlace values v.number) with h0 | hpos
    · have hi0 : i = searchPlace values v.number := by omega
      rw [hi0, hat] at hi
      exact Int.le_of_eq (congrArg EnumValue.number (Option.some.inj hi))
    · obtain ⟨w, hw, hwle⟩ := hb.low hpos
      rw [hat] at hw
      rwa [Option.some.inj hw]
  have heq : values[searchPlace values v.number].number = v.number :=
    Int.le_antisymm hle (hs.le hile hi hat)
  refine ⟨_, ?_, List.getElem_mem hplace, heq⟩
  simp only [valueOfNumber?, hat, Option.filter_some, heq, decide_true, if_true]

/-! ### Inserting values -/

theorem insertValue_perm (values : List EnumValue) (value : EnumValue) :
    (insertValue values value).Perm (value :: values) := by
  simp only [insertValue]
  refine List.perm_middle.trans ?_
  rw [List.take_append_drop]

theorem orderedValues_perm (values : List EnumValue) : (orderedValues values).Perm values := by
  have key (start : List EnumValue) : (values.foldl insertValue start).Perm (start ++ values) := by
    induction values generalizing start with
    | nil => simp
    | cons v vs ih =>
      refine (ih (insertValue start v)).trans ?_
      have hfront := (insertValue_perm start v).append_right vs
      exact hfront.trans List.perm_middle.symm
  simpa only [orderedValues, List.nil_append] using key []

/-- Splitting ascending values at a place that separates smaller from greater numbers. -/
theorem ascending_insert {values : List EnumValue} {value : EnumValue} {place : Nat}
    (hs : Ascending values)
    (hbefore : ∀ i v, i < place → values[i]? = some v → v.number ≤ value.number)
    (hafter : ∀ i v, place ≤ i → values[i]? = some v → value.number ≤ v.number) :
    Ascending (values.take place ++ value :: values.drop place) := by
  have hfront : ∀ a ∈ values.take place, a.number ≤ value.number := by
    intro a ha
    obtain ⟨i, hi, rfl⟩ := List.mem_take_iff_getElem.mp ha
    exact hbefore i _ (by omega) (List.getElem?_eq_getElem (by omega))
  have hback : ∀ b ∈ values.drop place, value.number ≤ b.number := by
    intro b hb
    obtain ⟨i, hi, rfl⟩ := List.mem_drop_iff_getElem.mp hb
    exact hafter _ _ (Nat.le_add_right place i) (List.getElem?_eq_getElem (by omega))
  have hparts : Ascending (values.take place ++ values.drop place) := by
    rwa [List.take_append_drop]
  obtain ⟨htake, hdrop, hacross⟩ := List.pairwise_append.mp hparts
  refine List.pairwise_append.mpr ⟨htake, List.pairwise_cons.mpr ⟨hback, hdrop⟩, ?_⟩
  intro a ha b hb
  rcases List.mem_cons.mp hb with rfl | hb
  · exact hfront a ha
  · exact hacross a ha b hb

theorem insertValue_ascending {values : List EnumValue} (hs : Ascending values) (value : EnumValue) :
    Ascending (insertValue values value) := by
  cases values with
  | nil => simp [insertValue, searchPlace, searchBase, Ascending]
  | cons head tail =>
    have hb := searchPlace_bracket value.number hs (List.cons_ne_nil head tail)
    have hplace := hb.inside
    have hat := List.getElem?_eq_getElem (l := head :: tail) (i := searchPlace _ value.number) hplace
    have hbefore : ∀ i v, i < searchPlace (head :: tail) value.number →
        (head :: tail)[i]? = some v → v.number ≤ value.number := by
      intro i v hi hv
      obtain ⟨w, hw, hwle⟩ := hb.low (by omega)
      exact Int.le_trans (hs.le (by omega) hv hw) hwle
    simp only [insertValue, hat, Option.any_some]
    split
    · rename_i hless
      refine ascending_insert hs ?_ ?_
      · intro i v hi hv
        rcases Nat.lt_or_eq_of_le (Nat.le_of_lt_succ hi) with hlt | rfl
        · exact hbefore i v hlt hv
        · rw [hat] at hv
          rw [← Option.some.inj hv]
          exact Int.le_of_lt (of_decide_eq_true hless)
      · intro i v hi hv
        exact Int.le_of_lt (hb.high i v hi hv)
    · rename_i hless
      refine ascending_insert hs hbefore ?_
      intro i v hi hv
      have hge : value.number ≤ ((head :: tail)[searchPlace (head :: tail) value.number]).number := by
        simpa using hless
      exact Int.le_trans hge (hs.le hi hat hv)

theorem orderedValues_ascending (values : List EnumValue) : Ascending (orderedValues values) := by
  have key (start : List EnumValue) (hs : Ascending start) :
      Ascending (values.foldl insertValue start) := by
    induction values generalizing start with
    | nil => exact hs
    | cons v vs ih => exact ih _ (insertValue_ascending hs v)
  exact key [] List.Pairwise.nil

/-- Every declared number stands for one of the declared values with that number. -/
theorem numberedValue?_declared (e : Enum) {v : EnumValue} (hv : v ∈ e.values) :
    ∃ w ∈ e.values, w.number = v.number ∧ numberedValue? e v.number = some w := by
  have hperm := orderedValues_perm e.values
  obtain ⟨w, hw, hin, hnum⟩ :=
    valueOfNumber?_isSome (orderedValues_ascending e.values) (hperm.mem_iff.mpr hv)
  exact ⟨w, hperm.mem_iff.mp hin, hnum, hw⟩

end SchemaTree.Pool
