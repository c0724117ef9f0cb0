import SchemaTree.Proofs.Options.Packing
import SchemaTree.Proofs.Pool.Bare
import SchemaTree.Proofs.Pool.Names

/-!
# Files that leave the options of fields as usual

A file can declare the options of fields itself, or extend them. The declarations of a file are as usual if
its messages and extensions are, and interpreting its options changes nothing of that.
-/

namespace SchemaTree
open Descriptor (Changed Field File Message Target)
open Options (UsualExtension UsualMessage)

/-- All extensions of a file, those declared in messages included. -/
def Descriptor.File.allExtensions (file : File) : List Field :=
  file.extensions ++ file.messageTree.flatMap (·.2.extensions)

/-- A file that declares the options of fields as usual if it declares them, and extends them as usual. -/
structure UsualFile (file : File) : Prop where
  messages : ∀ p ∈ file.messageTree, p.1 = Target.field.messageName →
    UsualMessage (Pool.dialectOf file) p.2
  extensions : ∀ x ∈ file.allExtensions, UsualExtension x

instance (file : File) : Decidable (UsualFile file) :=
  decidable_of_iff ((∀ p ∈ file.messageTree, p.1 = Target.field.messageName →
      UsualMessage (Pool.dialectOf file) p.2) ∧ ∀ x ∈ file.allExtensions, UsualExtension x)
    ⟨fun h => ⟨h.1, h.2⟩, fun h => ⟨h.messages, h.extensions⟩⟩

/-! ### Declarations -/

namespace Pool

theorem mem_extensionEntries {scope name : String} {xs : List Field} {x : Field}
    (h : (name, Entry.extension x) ∈ extensionEntries scope xs) : x ∈ xs := by
  obtain ⟨y, hy, h⟩ := List.mem_map.mp h
  cases h
  exact hy

theorem extension_mem_allExtensions {f : File} {name : String} {x : Field}
    (h : (name, Entry.extension x) ∈ entries f) : x ∈ f.allExtensions := by
  simp only [entries, List.mem_append] at h
  rcases h with (((h | h) | h) | h) | h
  · obtain ⟨_, _, h⟩ := List.mem_map.mp h
    cases h
  · obtain ⟨p, hp, h⟩ := List.mem_flatMap.mp h
    simp only [messageEntries, enumEntries, List.mem_append, List.mem_cons, List.mem_map, List.mem_flatMap,
      Prod.mk.injEq, reduceCtorEq, and_false, exists_false, false_or, or_false] at h
    exact List.mem_append_right _ (List.mem_flatMap.mpr ⟨p, hp, mem_extensionEntries h⟩)
  · simp [enumEntries] at h
  · exact List.mem_append_left _ (mem_extensionEntries h)
  · simp [serviceEntries] at h

end Pool

theorem UsualFile.declarations {f : File} (h : UsualFile f) : Options.Usual (Pool.declarationsOf f) := by
  intro d hd
  obtain ⟨⟨name, entry⟩, hentry, rfl⟩ := List.mem_map.mp hd
  cases entry with
  | message m => exact h.messages (name, m) (Pool.message_mem_messageTree hentry)
  | extension x => exact h.extensions x (Pool.extension_mem_allExtensions hentry)
  | _ => trivial

/-! ### Interpreted files -/

/-- Fields that are the same but for their options. -/
def SameButOptions (x y : Field) : Prop := ∃ options, y = { x with options }

namespace Options.Environment
variable {env : Environment}

theorem settleMessage?_extensions {fullName : String} {m m' : Message}
    (h : env.settleMessage? fullName m = some m') :
    List.Forall₂ SameButOptions m.extensions m'.extensions := by
  obtain ⟨_, _, h⟩ := Option.bind_eq_some_iff.mp h
  obtain ⟨_, _, h⟩ := Option.bind_eq_some_iff.mp h
  obtain ⟨_, _, h⟩ := Option.bind_eq_some_iff.mp h
  obtain ⟨extensions, hextensions, h⟩ := Option.bind_eq_some_iff.mp h
  obtain ⟨_, _, h⟩ := Option.bind_eq_some_iff.mp h
  obtain ⟨_, _, h⟩ := Option.bind_eq_some_iff.mp h
  cases Option.some.inj h
  exact (forall₂_of_mapM hextensions).imp fun _ _ => settleField?_same

theorem settleFile?_extensions {f g : File} (h : env.settleFile? f = some g) :
    List.Forall₂ SameButOptions f.allExtensions g.allExtensions := by
  have htree := (settleFile?_same h).2
  have hmessages : List.Forall₂ SameButOptions (f.messageTree.flatMap (·.2.extensions))
      (g.messageTree.flatMap (·.2.extensions)) := by
    refine List.rel_flatMap htree fun p q hpq => ?_
    obtain ⟨_, m, hm, hq⟩ := hpq
    have hextensions := settleMessage?_extensions hm
    rw [hq]
    exact hextensions
  obtain ⟨_, _, h⟩ := Option.bind_eq_some_iff.mp h
  obtain ⟨_, _, h⟩ := Option.bind_eq_some_iff.mp h
  obtain ⟨_, _, h⟩ := Option.bind_eq_some_iff.mp h
  obtain ⟨extensions, hextensions, h⟩ := Option.bind_eq_some_iff.mp h
  obtain ⟨_, _, h⟩ := Option.bind_eq_some_iff.mp h
  cases Option.some.inj h
  exact List.rel_append ((forall₂_of_mapM hextensions).imp fun _ _ => settleField?_same) hmessages

end Options.Environment

/-- Interpreting options makes nothing usual that was not. -/
theorem UsualFile.of_settled {env : Options.Environment} {f g : File} (hsettle : env.settleFile? f = some g)
    (h : UsualFile g) : UsualFile f := by
  have hdialect : Pool.dialectOf g = Pool.dialectOf f :=
    Pool.dialectOf_of_bare (Options.Environment.settleFile?_bare hsettle)
  constructor
  · intro p hp hname
    obtain ⟨q, hq, hqname, m, hm, heq⟩ :=
      exists_of_forall₂_right (Options.Environment.settleFile?_same hsettle).2.flip hp
    obtain ⟨hproto2, hfields⟩ := h.messages q hq (hqname.trans hname)
    refine ⟨hdialect ▸ hproto2, fun x hx => ?_⟩
    obtain ⟨y, hy, hxy⟩ :=
      exists_of_forall₂_right (Options.Environment.settleMessage?_same hm).2.flip hx
    obtain ⟨_, rfl⟩ := Options.Environment.settleField?_same hxy
    rw [heq] at hfields
    have husual := hfields _ hy
    exact husual
  · intro x hx
    obtain ⟨_, hy, _, rfl⟩ :=
      exists_of_forall₂_right (Options.Environment.settleFile?_extensions hsettle).flip hx
    have husual := h.extensions _ hy
    exact husual

/-- The standard options of fields are as usual. -/
theorem standard_usual : Options.Usual Pool.standard := by
  have husual : UsualFile Standard.optionTypes := by decide +kernel
  exact husual.declarations

end SchemaTree
