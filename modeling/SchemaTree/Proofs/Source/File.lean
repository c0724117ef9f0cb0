import SchemaTree.Proofs.Text.Characters
import SchemaTree.Source.Grammar

/-!
# Reading a file keeps its name

The name of a file is given before any token is read, and no item of a file changes it.
-/

namespace SchemaTree

namespace Token.Parser

/-- Every result of a reader has a property. -/
def Yields (P : α → Prop) (x : Parser α) : Prop := ∀ ts a rest, x ts = some (a, rest) → P a

theorem Yields.imp {P Q : α → Prop} {x : Parser α} (h : Yields P x) (himp : ∀ a, P a → Q a) :
    Yields Q x := fun ts a rest ha => himp a (h ts a rest ha)

theorem yields_pure {P : α → Prop} {a : α} (h : P a) : Yields P (pure a : Parser α) := by
  intro ts b rest hb
  cases Option.some.inj hb
  exact h

theorem yields_bind {P : α → Prop} {Q : β → Prop} {x : Parser α} {f : α → Parser β}
    (hx : Yields P x) (hf : ∀ a, P a → Yields Q (f a)) : Yields Q (x >>= f) := by
  intro ts b rest h
  obtain ⟨⟨a, ts'⟩, ha, hb⟩ := Option.bind_eq_some_iff.mp h
  exact hf a (hx ts a ts' ha) ts' b rest hb

/-- What comes of a reader that goes on whatever the first result is. -/
theorem yields_then {Q : β → Prop} {x : Parser α} {f : α → Parser β}
    (hf : ∀ a, Yields Q (f a)) : Yields Q (x >>= f) :=
  yields_bind (P := fun _ => True) (fun _ _ _ _ => trivial) fun a _ => hf a

theorem yields_ite {P : α → Prop} {c : Prop} [Decidable c] {x y : Parser α} (hx : Yields P x)
    (hy : Yields P y) : Yields P (if c then x else y) := by
  split
  · exact hx
  · exact hy

end Token.Parser

namespace Source
open Token.Parser
open Schema (Dialect)

def Named (name : String) (d : Descriptor.File) : Prop := d.name = name

theorem importStatement_name {name : String} {d : Descriptor.File} (h : Named name d) :
    Yields (Named name) (importStatement d) := by
  unfold importStatement
  refine yields_then fun _ => ?_
  dsimp only
  -- The modifier of an import decides how its name is read on, not what becomes of the file.
  refine yields_ite (yields_then fun _ => ?_) (yields_then fun _ => ?_)
  all_goals
    refine yields_then fun _ => yields_then fun _ => ?_
    exact yields_ite (yields_then fun _ => yields_pure h) (yields_pure h)

theorem fileItem_name {name : String} {dialect : Dialect} {body : Token.Parser Descriptor.Message}
    {d : Descriptor.File} (h : Named name d) : Yields (Named name) (fileItem dialect body d) := by
  unfold fileItem
  refine yields_then fun _ => yields_ite (yields_pure h) ?_
  refine yields_then fun _ => yields_ite (importStatement_name h) ?_
  refine yields_then fun _ => yields_ite ?package ?_
  case package =>
    refine yields_then fun _ => yields_then fun _ => ?_
    exact yields_ite (yields_then fun _ => yields_pure h) (yields_pure h)
  refine yields_then fun _ => yields_ite (yields_then fun _ => yields_pure h) ?_
  refine yields_then fun _ => yields_ite
    (yields_then fun _ => yields_then fun _ => yields_pure h) ?_
  refine yields_then fun _ => yields_ite (yields_then fun _ => yields_pure h) ?_
  refine yields_then fun _ => yields_ite (yields_then fun _ => yields_pure h) ?_
  exact yields_then fun _ => yields_then fun _ => yields_pure h

theorem fileItems_name {name : String} {dialect : Dialect} {body : Token.Parser Descriptor.Message}
    (fuel : Nat) {d : Descriptor.File} (h : Named name d) :
    Yields (Named name) (fileItems dialect body fuel d) := by
  induction fuel generalizing d with
  | zero =>
    unfold fileItems
    exact yields_then fun _ => yields_ite (yields_then fun _ => yields_pure h) (yields_pure h)
  | succ fuel ih =>
    unfold fileItems
    refine yields_then fun _ => yields_ite (yields_pure h) ?_
    exact yields_bind (fileItem_name h) fun d' hd => ih hd

theorem file_name (name : String) : Yields (Named name) (file name) := by
  unfold file
  refine yields_then fun word => ?_
  dsimp only
  split
  all_goals exact yields_then fun _ => yields_then fun fuel => fileItems_name fuel rfl

/-- The declarations of a source have the name under which it is read. -/
theorem read?_name {name source : String} {d : Descriptor.File} (h : read? name source = some d) :
    d.name = name := by
  obtain ⟨tokens, _, h⟩ := Option.bind_eq_some_iff.mp h
  obtain ⟨⟨d', rest⟩, hfile, h⟩ := Option.bind_eq_some_iff.mp h
  cases Option.some.inj h
  exact file_name name tokens _ _ hfile

/-- A source that is given by its characters is read from these. -/
theorem read?_ofList (name : String) (cs : List Char) : read? name (String.ofList cs) =
    (Token.readSourceWithin? cs.length (.plain false) cs).bind fun tokens =>
      (file name tokens).bind fun r => some r.1 := by
  rw [read?, Token.readSource?, Text.characters_eq, String.toList_ofList]
  rfl

end Source
end SchemaTree
