import SchemaTree.Options.Interpret
import SchemaTree.Proofs.Descriptor.Nested

/-!
# What interpreting options keeps

Interpreting the options of a file changes options and nothing else. The name of the file and the
names and numbers of the fields of every message are the same before and after.
-/

namespace SchemaTree.Options.Environment
open Descriptor

theorem settle?_eq_none {env : Environment} {target : Target} {scope : String}
    {options options' : Option Options} (h : env.settle? target scope options = some options') :
    options' = none ↔ options = none := by
  cases options with
  | none =>
    cases Option.some.inj h
    exact Iff.rfl
  | some o =>
    simp only [settle?] at h
    split at h
    · obtain ⟨_, _, rfl⟩ := Option.map_eq_some_iff.mp h
      exact iff_of_false nofun nofun
    · cases h

theorem settleField?_same {env : Environment} {scope : String} {x y : Field}
    (h : env.settleField? scope x = some y) : ∃ options, y = { x with options } := by
  obtain ⟨options, _, h⟩ := Option.bind_eq_some_iff.mp h
  exact ⟨options, (Option.some.inj h).symm⟩

theorem settleMessage?_same {env : Environment} {fullName : String} {m m' : Message}
    (h : env.settleMessage? fullName m = some m') : m'.name = m.name ∧
      List.Forall₂ (fun x y => env.settleField? fullName x = some y) m.fields m'.fields := by
  obtain ⟨_, _, h⟩ := Option.bind_eq_some_iff.mp h
  obtain ⟨_, _, h⟩ := Option.bind_eq_some_iff.mp h
  obtain ⟨fields, hfields, h⟩ := Option.bind_eq_some_iff.mp h
  obtain ⟨_, _, h⟩ := Option.bind_eq_some_iff.mp h
  obtain ⟨_, _, h⟩ := Option.bind_eq_some_iff.mp h
  obtain ⟨_, _, h⟩ := Option.bind_eq_some_iff.mp h
  cases Option.some.inj h
  exact ⟨rfl, forall₂_of_mapM hfields⟩

theorem settleMessage?_keepsNames (env : Environment) : KeepsNames env.settleMessage? := by
  intro fullName m m' h
  exact (settleMessage?_same h).1

theorem settleFile?_same {env : Environment} {f g : File} (h : env.settleFile? f = some g) :
    g.name = f.name ∧
      List.Forall₂ (Changed env.settleMessage?) f.messageTree g.messageTree := by
  obtain ⟨messages, hmessages, h⟩ := Option.bind_eq_some_iff.mp h
  obtain ⟨_, _, h⟩ := Option.bind_eq_some_iff.mp h
  obtain ⟨_, _, h⟩ := Option.bind_eq_some_iff.mp h
  obtain ⟨_, _, h⟩ := Option.bind_eq_some_iff.mp h
  obtain ⟨_, _, h⟩ := Option.bind_eq_some_iff.mp h
  cases Option.some.inj h
  exact ⟨rfl, trees_traverseAll? env.settleMessage?_keepsNames _ _ _ hmessages⟩

theorem settleFile?_layout {env : Environment} {f g : File} (h : env.settleFile? f = some g) :
    g.layout = f.layout := by
  refine layout_eq_of_changed (settleFile?_same h).2 fun fullName m m' hm => ?_
  refine map_eq_of_forall₂ (settleMessage?_same hm).2 fun x y hxy => ?_
  obtain ⟨_, rfl⟩ := settleField?_same hxy
  rfl

end SchemaTree.Options.Environment
