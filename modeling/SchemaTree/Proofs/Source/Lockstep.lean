import SchemaTree.Proofs.Source.File

/-!
# Two readers in lockstep

A reader follows another one if it takes the same tokens wherever the other one takes any, with a result that
is related to that of the other. What two readers do to the first token can be told from that token.
-/

namespace SchemaTree.Token.Parser

/-- From tokens with a property on, the second reader takes what the first one takes, and their results
are related. -/
def Follows (P : List Token → Prop) (R : α → β → Prop) (x : Parser α) (y : Parser β) : Prop :=
  ∀ ts, P ts → ∀ a rest, x ts = some (a, rest) → ∃ b, y ts = some (b, rest) ∧ R a b

/-- No property of tokens. -/
def Anywhere (_ : List Token) : Prop := True

variable {P : List Token → Prop}

theorem Follows.anywhere {R : α → β → Prop} {x : Parser α} {y : Parser β} (h : Follows Anywhere R x y) :
    Follows P R x y := fun ts _ => h ts trivial

theorem Follows.imp {R S : α → β → Prop} {x : Parser α} {y : Parser β} (h : Follows P R x y)
    (himp : ∀ a b, R a b → S a b) : Follows P S x y := by
  intro ts hts a rest ha
  obtain ⟨b, hb, hab⟩ := h ts hts a rest ha
  exact ⟨b, hb, himp a b hab⟩

theorem follows_pure {R : α → β → Prop} {a : α} {b : β} (h : R a b) :
    Follows P R (pure a : Parser α) (pure b : Parser β) := by
  intro ts _ a' rest ha
  cases Option.some.inj ha
  exact ⟨b, rfl, h⟩

theorem follows_refuse {R : α → β → Prop} {y : Parser β} : Follows P R (refuse : Parser α) y := by
  intro ts _ a rest ha
  cases ha

theorem follows_refuse_then {R : α → β → Prop} {f : γ → Parser α} {y : Parser β} :
    Follows P R (refuse >>= f) y := by
  intro ts _ a rest ha
  cases ha

theorem follows_bind {R : α → β → Prop} {S : γ → δ → Prop} {x : Parser α} {y : Parser β}
    {f : α → Parser γ} {g : β → Parser δ} (hxy : Follows P R x y)
    (hfg : ∀ a b, R a b → Follows Anywhere S (f a) (g b)) : Follows P S (x >>= f) (y >>= g) := by
  intro ts hts c rest hc
  obtain ⟨⟨a, ts'⟩, ha, hc⟩ := Option.bind_eq_some_iff.mp hc
  obtain ⟨b, hb, hab⟩ := hxy ts hts a ts' ha
  obtain ⟨d, hd, hcd⟩ := hfg a b hab ts' trivial c rest hc
  exact ⟨d, Option.bind_eq_some_iff.mpr ⟨(b, ts'), hb, hd⟩, hcd⟩

/-- The first reader goes on with a change of its result. -/
theorem Follows.change {R : α → β → Prop} {S : γ → β → Prop} {x : Parser α} {y : Parser β} {f : α → γ}
    (h : Follows P R x y) (hf : ∀ a b, R a b → S (f a) b) :
    Follows P S (x >>= fun a => pure (f a)) y := by
  intro ts hts c rest hc
  obtain ⟨⟨a, ts'⟩, ha, hc⟩ := Option.bind_eq_some_iff.mp hc
  obtain ⟨b, hb, hab⟩ := h ts hts a ts' ha
  cases Option.some.inj hc
  exact ⟨b, hb, hf a b hab⟩

/-- Both readers begin with the same one, every result of which has a property. -/
theorem follows_yields {Q : α → Prop} {S : γ → δ → Prop} {x : Parser α} {f : α → Parser γ}
    {g : α → Parser δ} (hx : Yields Q x) (hfg : ∀ a, Q a → Follows Anywhere S (f a) (g a)) :
    Follows P S (x >>= f) (x >>= g) := by
  intro ts _ c rest hc
  obtain ⟨⟨a, ts'⟩, ha, hc⟩ := Option.bind_eq_some_iff.mp hc
  obtain ⟨d, hd, hcd⟩ := hfg a (hx ts a ts' ha) ts' trivial c rest hc
  exact ⟨d, Option.bind_eq_some_iff.mpr ⟨(a, ts'), ha, hd⟩, hcd⟩

theorem follows_then {S : γ → δ → Prop} {x : Parser α} {f : α → Parser γ} {g : α → Parser δ}
    (hfg : ∀ a, Follows Anywhere S (f a) (g a)) : Follows P S (x >>= f) (x >>= g) :=
  follows_yields (Q := fun _ => True) (fun _ _ _ _ => trivial) fun a _ => hfg a

theorem follows_ite {R : α → β → Prop} {c : Prop} [Decidable c] {x x' : Parser α} {y y' : Parser β}
    (hx : Follows P R x y) (hx' : Follows P R x' y') :
    Follows P R (if c then x else x') (if c then y else y') := by
  split
  · exact hx
  · exact hx'

/-- Two readers that refuse under one condition. -/
theorem follows_unless {R : γ → δ → Prop} {c : Prop} [Decidable c] {f : α → Parser γ} {g : α → Parser δ}
    {x : Parser γ} {y : Parser δ} (h : ¬c → Follows P R x y) :
    Follows P R (if c then refuse >>= f else x) (if c then refuse >>= g else y) := by
  by_cases hc : c
  · rw [if_pos hc, if_pos hc]
    exact follows_refuse_then
  · rw [if_neg hc, if_neg hc]
    exact h hc

/-! ### First tokens -/

/-- A reader that takes a token if it comes first goes on without it, or from where it was. -/
theorem bind_of_accepts {t : Token} {takes : Parser Unit} (htakes : ∀ rest, takes (t :: rest) = some ((), rest))
    (f : Bool → Parser α) (ts : List Token) :
    ((do if (← peek) = some t then takes; pure true else pure false) >>= f) ts =
      if ts.head? = some t then f true ts.tail else f false ts := by
  by_cases h : ts.head? = some t
  · obtain ⟨rest, rfl⟩ := List.head?_eq_some_iff.mp h
    simp only [peek, bind, StateT.bind, Option.bind_some, List.head?_cons, if_true, htakes]
    rfl
  · simp only [peek, bind, StateT.bind, Option.bind_some, h, if_false]
    rfl

theorem symbol_first (c : Char) (rest : List Token) : symbol c (.symbol c :: rest) = some ((), rest) := by
  simp only [symbol, next, bind, StateT.bind, Option.bind_some, if_true]
  rfl

theorem keyword_first (w : String) (rest : List Token) : keyword w (.word w :: rest) = some ((), rest) := by
  simp only [keyword, next, bind, StateT.bind, Option.bind_some, if_true]
  rfl

theorem accept_bind (c : Char) (f : Bool → Parser α) (ts : List Token) :
    (accept c >>= f) ts = if ts.head? = some (.symbol c) then f true ts.tail else f false ts :=
  bind_of_accepts (symbol_first c) f ts

theorem acceptWord_bind (w : String) (f : Bool → Parser α) (ts : List Token) :
    (acceptWord w >>= f) ts = if ts.head? = some (.word w) then f true ts.tail else f false ts :=
  bind_of_accepts (keyword_first w) f ts

theorem follows_accept {R : α → β → Prop} {c : Char} {f : Bool → Parser α} {g : Bool → Parser β}
    (htrue : Follows Anywhere R (f true) (g true)) (hfalse : Follows P R (f false) (g false)) :
    Follows P R (accept c >>= f) (accept c >>= g) := by
  intro ts hts a rest ha
  rw [accept_bind] at ha ⊢
  by_cases h : ts.head? = some (.symbol c)
  · rw [if_pos h] at ha ⊢
    exact htrue ts.tail trivial a rest ha
  · rw [if_neg h] at ha ⊢
    exact hfalse ts hts a rest ha

/-- A word that is not accepted leaves the tokens as they were. -/
theorem follows_acceptWord {R : α → β → Prop} {w : String} {f : Bool → Parser α} {g : Bool → Parser β}
    (htrue : (∃ ts, P ts ∧ ts.head? = some (.word w)) → Follows Anywhere R (f true) (g true))
    (hfalse : Follows P R (f false) (g false)) :
    Follows P R (acceptWord w >>= f) (acceptWord w >>= g) := by
  intro ts hts a rest ha
  rw [acceptWord_bind] at ha ⊢
  by_cases h : ts.head? = some (.word w)
  · rw [if_pos h] at ha ⊢
    exact htrue ⟨ts, hts, h⟩ ts.tail trivial a rest ha
  · rw [if_neg h] at ha ⊢
    exact hfalse ts hts a rest ha

/-! ### Blocks -/

/-- Items that keep two states related make up blocks that do. -/
theorem follows_block {R : σ → τ → Prop} {item : σ → Parser σ} {item' : τ → Parser τ}
    (h : ∀ s t, R s t → Follows Anywhere R (item s) (item' t)) {s : σ} {t : τ} (hst : R s t) :
    Follows P R (block item s) (block item' t) := by
  have hitems (fuel : Nat) (s : σ) (t : τ) (hst : R s t) :
      Follows Anywhere R (itemsWithin item fuel s) (itemsWithin item' fuel t) := by
    induction fuel generalizing s t with
    | zero =>
      intro ts _ a rest ha
      cases ha
    | succ fuel ih =>
      unfold itemsWithin
      apply follows_then
      intro closed
      apply follows_ite (follows_pure hst)
      exact follows_bind (h s t hst) ih
  unfold block
  apply follows_then
  intro _
  apply follows_then
  intro fuel
  exact hitems fuel s t hst

end SchemaTree.Token.Parser
