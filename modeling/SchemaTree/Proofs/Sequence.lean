import Mathlib.Data.List.Forall2
import Mathlib.Data.List.Nodup

/-!
# Steps taken one after the other

A list that is changed item by item corresponds to what comes of it, and the first step that fails
decides how a sequence of steps fails.
-/

namespace SchemaTree

/-! ### Lists changed item by item -/

theorem forall₂_of_mapM {f : α → Option β} {xs : List α} {ys : List β} (h : xs.mapM f = some ys) :
    List.Forall₂ (fun x y => f x = some y) xs ys := by
  induction xs generalizing ys with
  | nil =>
    cases Option.some.inj h
    exact .nil
  | cons x xs ih =>
    rw [List.mapM_cons] at h
    obtain ⟨y, hy, h⟩ := Option.bind_eq_some_iff.mp h
    obtain ⟨rest, hrest, h⟩ := Option.bind_eq_some_iff.mp h
    cases Option.some.inj h
    exact .cons hy (ih hrest)

theorem map_eq_of_forall₂ {R : α → β → Prop} {g : α → γ} {g' : β → γ} {xs : List α} {ys : List β}
    (h : List.Forall₂ R xs ys) (hg : ∀ x y, R x y → g' y = g x) : ys.map g' = xs.map g := by
  induction h with
  | nil => rfl
  | cons hxy _ ih => rw [List.map_cons, List.map_cons, hg _ _ hxy, ih]

/-- A change of the items that keeps some view of them keeps the view of the list. -/
theorem map_eq_of_mapM {f : α → Option α} (g : α → γ) {xs ys : List α} (h : xs.mapM f = some ys)
    (hg : ∀ x y, f x = some y → g y = g x) : ys.map g = xs.map g :=
  map_eq_of_forall₂ (forall₂_of_mapM h) hg

theorem flatMap_eq_of_forall₂ {R : α → β → Prop} {g : α → List γ} {g' : β → List γ} {xs : List α}
    {ys : List β} (h : List.Forall₂ R xs ys) (hg : ∀ x y, R x y → g' y = g x) :
    ys.flatMap g' = xs.flatMap g := by
  rw [List.flatMap_def, List.flatMap_def, map_eq_of_forall₂ h hg]

theorem forall₂_of_map_eq {g : α → γ} {g' : β → γ} {xs : List α} {ys : List β}
    (h : ys.map g' = xs.map g) : List.Forall₂ (fun x y => g' y = g x) xs ys := by
  have heq : List.Forall₂ (fun a b => b = a) (xs.map g) (ys.map g') := by
    rw [h]
    exact List.forall₂_same.mpr fun _ _ => rfl
  rwa [List.forall₂_map_left_iff, List.forall₂_map_right_iff] at heq

theorem exists_of_forall₂_right {R : α → β → Prop} {xs : List α} {ys : List β}
    (h : List.Forall₂ R xs ys) {y : β} (hy : y ∈ ys) : ∃ x ∈ xs, R x y := by
  induction h with
  | nil => cases hy
  | @cons x _ _ _ hxy _ ih =>
    rcases List.mem_cons.mp hy with rfl | hy
    · exact ⟨x, List.mem_cons_self, hxy⟩
    · obtain ⟨z, hz, hzy⟩ := ih hy
      exact ⟨z, List.mem_cons_of_mem _ hz, hzy⟩

theorem forall₂_imp_of_mem {R S : α → β → Prop} {xs : List α} {ys : List β}
    (h : List.Forall₂ R xs ys) (hS : ∀ x ∈ xs, ∀ y, R x y → S x y) : List.Forall₂ S xs ys := by
  induction h with
  | nil => exact .nil
  | @cons x y _ _ hxy _ ih =>
    exact .cons (hS x List.mem_cons_self y hxy) (ih fun z hz => hS z (List.mem_cons_of_mem _ hz))

theorem forall₂_and_mem {R : α → β → Prop} {xs : List α} {ys : List β} (h : List.Forall₂ R xs ys) :
    List.Forall₂ (fun x y => R x y ∧ x ∈ xs ∧ y ∈ ys) xs ys := by
  induction h with
  | nil => exact .nil
  | cons hxy _ ih =>
    refine .cons ⟨hxy, List.mem_cons_self, List.mem_cons_self⟩ (ih.imp ?_)
    rintro x y ⟨hxy, hx, hy⟩
    exact ⟨hxy, List.mem_cons_of_mem _ hx, List.mem_cons_of_mem _ hy⟩

theorem forall_of_forall₂ {P : α → Prop} {Q : β → Prop} {R : α → β → Prop} {xs : List α} {ys : List β}
    (h : List.Forall₂ R xs ys) (hxs : ∀ x ∈ xs, P x) (hR : ∀ x y, P x → R x y → Q y) :
    ∀ y ∈ ys, Q y := by
  intro y hy
  obtain ⟨x, hx, hxy⟩ := exists_of_forall₂_right h hy
  exact hR x y (hxs x hx) hxy

theorem forall_of_mapM {P : α → Prop} {Q : β → Prop} {f : α → Option β} {xs : List α} {ys : List β}
    (h : xs.mapM f = some ys) (hxs : ∀ x ∈ xs, P x) (hf : ∀ x y, P x → f x = some y → Q y) :
    ∀ y ∈ ys, Q y := forall_of_forall₂ (forall₂_of_mapM h) hxs hf

/-- Two lists that correspond to the same one correspond to each other. -/
theorem forall₂_meet {R : α → β → Prop} {S : α → γ → Prop} {xs : List α} {ys : List β} {zs : List γ}
    (hR : List.Forall₂ R xs ys) (hS : List.Forall₂ S xs zs) :
    List.Forall₂ (fun y z => ∃ x ∈ xs, R x y ∧ S x z) ys zs := by
  induction hR generalizing zs with
  | nil =>
    cases hS
    exact .nil
  | @cons x _ _ _ hxy _ ih =>
    cases hS with
    | cons hxz hS =>
      refine .cons ⟨x, List.mem_cons_self, hxy, hxz⟩ ((ih hS).imp ?_)
      rintro y z ⟨w, hw, hwyz⟩
      exact ⟨w, List.mem_cons_of_mem _ hw, hwyz⟩

theorem forall₂_comp {R : α → β → Prop} {S : β → γ → Prop} {xs : List α} {ys : List β} {zs : List γ}
    (hR : List.Forall₂ R xs ys) (hS : List.Forall₂ S ys zs) :
    List.Forall₂ (fun x z => ∃ y, R x y ∧ S y z) xs zs := by
  induction hR generalizing zs with
  | nil =>
    cases hS
    exact .nil
  | cons hxy _ ih =>
    cases hS with
    | cons hyz hS => exact .cons ⟨_, hxy, hyz⟩ (ih hS)

/-! ### Lists of pairs -/

theorem mem_of_lookup [BEq α] [LawfulBEq α] {entries : List (α × β)} {a : α} {b : β}
    (h : entries.lookup a = some b) : (a, b) ∈ entries := by
  obtain ⟨before, after, rfl, -⟩ := List.lookup_eq_some_iff.mp h
  exact List.mem_append_right before List.mem_cons_self

theorem lookup_eq_of_perm {α β : Type*} [BEq α] [LawfulBEq α] {a b : List (α × β)} (h : a.Perm b)
    (hdistinct : (a.map (·.1)).Nodup) (key : α) : a.lookup key = b.lookup key := by
  induction h with
  | nil => rfl
  | cons x _ ih => rw [List.lookup_cons, List.lookup_cons, ih (List.nodup_cons.mp hdistinct).2]
  | swap x y rest =>
    have hne : y.1 ≠ x.1 := by
      have hnot := (List.nodup_cons.mp hdistinct).1
      exact fun heq => hnot (List.mem_cons.mpr (.inl heq))
    rw [List.lookup_cons, List.lookup_cons, List.lookup_cons, List.lookup_cons]
    by_cases hx : key = x.1
    · have hy : key ≠ y.1 := fun heq => hne (heq.symm.trans hx)
      rw [beq_iff_eq.mpr hx, beq_false_of_ne hy]
    · rw [beq_false_of_ne hx]
  | trans hab _ ihab ihbc =>
    have hmiddle := (hab.map (·.1)).nodup_iff.mp hdistinct
    exact (ihab hdistinct).trans (ihbc hmiddle)

/-! ### Results that may be failures -/

theorem bind_eq_ok {x : Except ε α} {f : α → Except ε β} {b : β} (h : x >>= f = .ok b) :
    ∃ a, x = .ok a ∧ f a = .ok b := by
  cases x with
  | error e => cases h
  | ok a => exact ⟨a, rfl, h⟩

theorem bind_eq_error {x : Except ε α} {f : α → Except ε β} {e : ε} (h : x >>= f = .error e) :
    x = .error e ∨ ∃ a, x = .ok a ∧ f a = .error e := by
  cases x with
  | error e' =>
    cases h
    exact .inl rfl
  | ok a => exact .inr ⟨a, rfl, h⟩

theorem eq_of_guard {c : Prop} [Decidable c] {e : ε} {a b : α}
    (h : (if c then .error e else .ok a : Except ε α) = .ok b) : b = a := by
  split at h
  · cases h
  · cases h
    rfl

theorem forall₂_of_mapM_ok {f : α → Except ε β} {xs : List α} {ys : List β}
    (h : xs.mapM f = .ok ys) : List.Forall₂ (fun x y => f x = .ok y) xs ys := by
  induction xs generalizing ys with
  | nil =>
    cases h
    exact .nil
  | cons x xs ih =>
    rw [List.mapM_cons] at h
    obtain ⟨y, hy, h⟩ := bind_eq_ok h
    obtain ⟨rest, hrest, h⟩ := bind_eq_ok h
    cases h
    exact .cons hy (ih hrest)

theorem mapM_ok {f : α → Except ε β} {xs : List α} (h : ∀ x ∈ xs, ∃ y, f x = .ok y) :
    ∃ ys, xs.mapM f = .ok ys := by
  induction xs with
  | nil => exact ⟨[], rfl⟩
  | cons x xs ih =>
    obtain ⟨hx, hxs⟩ := List.forall_mem_cons.mp h
    obtain ⟨y, hy⟩ := hx
    obtain ⟨ys, hys⟩ := ih hxs
    exact ⟨y :: ys, by rw [List.mapM_cons, hy, hys]; rfl⟩

theorem exists_of_mapM_error {f : α → Except ε β} {xs : List α} {e : ε}
    (h : xs.mapM f = .error e) : ∃ x ∈ xs, f x = .error e := by
  induction xs with
  | nil => cases h
  | cons x xs ih =>
    rw [List.mapM_cons] at h
    rcases bind_eq_error h with h | ⟨y, _, h⟩
    · exact ⟨x, List.mem_cons_self, h⟩
    · rcases bind_eq_error h with h | ⟨_, _, h⟩
      · obtain ⟨z, hz, h⟩ := ih h
        exact ⟨z, List.mem_cons_of_mem _ hz, h⟩
      · cases h

theorem foldlM_keeps_of_mem {P : β → Prop} {f : β → α → Except ε β} {xs : List α} {b b' : β}
    (h : xs.foldlM f b = .ok b') (hb : P b) (hf : ∀ x ∈ xs, ∀ c c', P c → f c x = .ok c' → P c') :
    P b' := by
  induction xs generalizing b with
  | nil =>
    cases h
    exact hb
  | cons x xs ih =>
    obtain ⟨hx, hxs⟩ := List.forall_mem_cons.mp hf
    rw [List.foldlM_cons] at h
    obtain ⟨c, hc, h⟩ := bind_eq_ok h
    exact ih h (hx b c hb hc) hxs

theorem foldlM_keeps {P : β → Prop} {f : β → α → Except ε β} {xs : List α} {b b' : β}
    (h : xs.foldlM f b = .ok b') (hb : P b) (hf : ∀ c x c', P c → f c x = .ok c' → P c') : P b' :=
  foldlM_keeps_of_mem h hb fun x _ c c' => hf c x c'

theorem foldlM_congr_of_mem {f g : β → α → Except ε β} {xs : List α}
    (h : ∀ x ∈ xs, ∀ b, f b x = g b x) (b : β) : xs.foldlM f b = xs.foldlM g b := by
  induction xs generalizing b with
  | nil => rfl
  | cons x xs ih =>
    obtain ⟨hx, hxs⟩ := List.forall_mem_cons.mp h
    rw [List.foldlM_cons, List.foldlM_cons, hx]
    congr 1
    funext c
    exact ih hxs c

end SchemaTree
