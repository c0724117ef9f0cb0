import SchemaTree.Proofs.Descriptor.Decoded
import SchemaTree.Proofs.Loader.FieldOrder
import SchemaTree.Proofs.Loader.Origin

/-!
# Snapshots mirror their declarations

A snapshot has the messages, enums, services and methods of the declared file in the same places and the
same order. The fields of a message and the values of an enum may change their order, but each comes
once, with its name and its number.
-/

namespace SchemaTree

/-! ### What is kept of a declaration -/

def Descriptor.Enum.layout (e : Descriptor.Enum) : List (String × Int) :=
  e.values.map fun v => (v.name, v.number)

def Schema.Enum.layout (e : Schema.Enum) : List (String × Int) :=
  e.values.map fun v => (v.name, v.number.toInt)

/-- A service as its name and its methods in their order, each with its streaming flags. -/
structure Signature where
  name : String
  methods : List (String × Bool × Bool)

def Descriptor.Service.signature (s : Descriptor.Service) : Signature :=
  ⟨s.name, s.methods.map fun m => (m.name, m.clientStreaming, m.serverStreaming)⟩

def Schema.Service.signature (s : Schema.Service) : Signature :=
  ⟨s.name, s.methods.map fun m => (m.name, m.clientStreaming, m.serverStreaming)⟩

structure EnumMirrors (d : Descriptor.Enum) (s : Schema.Enum) : Prop where
  name : s.name = d.name
  values : s.layout.Perm d.layout

/-- A message mirrors a declared one: it has the same fields in some order, and what is nested in it
mirrors what is declared there, item by item. -/
inductive MessageMirrors : Descriptor.Message → Schema.Message → Prop
  | intro {d : Descriptor.Message} {s : Schema.Message} (name : s.name = d.name)
      (fields : s.layout.Perm d.layout)
      (messages : List.Forall₂ MessageMirrors d.messages s.messages)
      (enums : List.Forall₂ EnumMirrors d.enums s.enums) : MessageMirrors d s

structure FileMirrors (d : Descriptor.File) (s : Schema.File) : Prop where
  name : s.name = d.name
  package : s.package = d.package
  imports : s.imports = d.imports
  messages : List.Forall₂ MessageMirrors d.messages s.messages
  enums : List.Forall₂ EnumMirrors d.enums s.enums
  services : s.services.map Schema.Service.signature = d.services.map Descriptor.Service.signature

/-! ### Enums and services -/

theorem toInt_of_isInt32 {n : Int} (h : Wire.IsInt32 n) : (Int32.ofInt n).toInt = n := by
  obtain ⟨hlow, hhigh⟩ := h
  refine Int32.toInt_ofInt_of_le ?_ ?_
  · simpa using hlow
  · simpa using Int.lt_add_one_of_le hhigh

theorem enum_mirrors {e d : Descriptor.Enum} (hd : d.HasInt32) (h : e.bare = d.bare) :
    EnumMirrors d (Snapshot.enum e) := by
  obtain ⟨hname, hvalues⟩ := Descriptor.Enum.same_of_bare h
  have hpairs : e.values.map (fun v => (v.name, (Int32.ofInt v.number).toInt)) = d.layout := by
    refine map_eq_of_forall₂ (R := fun (w v : Descriptor.EnumValue) =>
      v.bare = w.bare ∧ Wire.IsInt32 w.number) ?_ ?_
    · exact forall₂_imp_of_mem (forall₂_of_map_eq hvalues) fun w hw v hwv => ⟨hwv, hd w hw⟩
    · rintro w v ⟨hvw, hw⟩
      obtain ⟨hn, hnumber⟩ := Descriptor.EnumValue.same_of_bare hvw
      rw [hn, hnumber, toInt_of_isInt32 hw]
  refine ⟨hname, ?_⟩
  have hperm := (Pool.orderedValues_perm e.values).map fun v => (v.name, (Int32.ofInt v.number).toInt)
  rw [hpairs] at hperm
  simp only [Schema.Enum.layout, Snapshot.enum, List.map_map, Function.comp_def]
  exact hperm

theorem enums_mirror {es ds : List Descriptor.Enum} (hds : ∀ d ∈ ds, d.HasInt32)
    (h : es.map Descriptor.Enum.bare = ds.map Descriptor.Enum.bare) :
    List.Forall₂ EnumMirrors ds (es.map Snapshot.enum) := by
  rw [List.forall₂_map_right_iff]
  refine forall₂_imp_of_mem (forall₂_of_map_eq h) ?_
  intro d hd e hed
  exact enum_mirrors (hds d hd) hed

theorem services_mirror {ds : List Pool.Declaration} {ss dd : List Descriptor.Service}
    (h : ss.map Descriptor.Service.bare = dd.map Descriptor.Service.bare) :
    (ss.map (Snapshot.service ds)).map Schema.Service.signature =
      dd.map Descriptor.Service.signature := by
  have hsignature (s : Descriptor.Service) : s.bare.signature = s.signature := by
    simp only [Descriptor.Service.signature, Descriptor.Service.bare, List.map_map,
      Function.comp_def, Descriptor.Method.bare]
  have hshown (s : Descriptor.Service) : (Snapshot.service ds s).signature = s.signature := by
    simp only [Schema.Service.signature, Descriptor.Service.signature, Snapshot.service, List.map_map,
      Function.comp_def]
  rw [List.map_map, Function.comp_def]
  simp only [hshown]
  have hsame := congrArg (List.map Descriptor.Service.signature) h
  simpa only [List.map_map, Function.comp_def, hsignature] using hsame

/-! ### Messages -/

section
open Snapshot
open Descriptor (qualify)
variable {ds : List Pool.Declaration} {file : String} {dialect : Schema.Dialect}

/-- Whether all fields of some messages have valid numbers. -/
def Numbered (tree : List (String × Descriptor.Message)) : Prop :=
  ∀ p ∈ tree, ∀ x ∈ p.2.fields, Pool.isFieldNumber x.number = true

theorem layout_of_surface {m d : Descriptor.Message} (h : m.surface = d.surface) :
    m.layout = d.layout := by
  have hbare (m : Descriptor.Message) : m.surface.layout = m.layout := by
    simp only [Descriptor.Message.layout, Descriptor.Message.surface, List.map_map,
      Function.comp_def, Descriptor.Field.bare]
  rw [← hbare m, ← hbare d, h]

mutual

theorem message_mirrors : ∀ (scope : String) (level : Nat) (m d : Descriptor.Message)
    (s : Schema.Message), message ds file dialect scope level m = .ok s →
      Numbered (Descriptor.Message.tree scope m) → d.HasInt32 → m.bare = d.bare → MessageMirrors d s
  | scope, level, ⟨name, fields, extensions, messages, enums, ranges, oneofs, options, rr, rn⟩, d, s,
      h, hnumbers, hd, hbare => by
    simp only [message] at h
    split at h
    · cases h
    · obtain ⟨shown, hfields, h⟩ := bind_eq_ok h
      obtain ⟨nested, hnested, h⟩ := bind_eq_ok h
      cases h
      obtain ⟨henums, hmessages⟩ := hd
      have hsurface := congrArg Descriptor.Message.surface hbare
      rw [Descriptor.Message.bare_surface, Descriptor.Message.bare_surface] at hsurface
      have hname : name = d.name := congrArg Descriptor.Message.name hsurface
      have hall : Descriptor.Message.bareAll messages = Descriptor.Message.bareAll d.messages := by
        cases d
        exact congrArg Descriptor.Message.messages hbare
      refine .intro hname ?_ ?_ ?_
      · rw [← layout_of_surface hsurface]
        have hshown : Shown ds file dialect (qualify scope name, ⟨name, fields, extensions, messages,
            enums, ranges, oneofs, options, rr, rn⟩)
            ⟨name, qualify scope name, shown, nested, enums.map enum⟩ :=
          ⟨rfl, rfl, forall₂_of_mapM_ok hfields, rfl⟩
        rw [shown_layout hshown (hnumbers _ List.mem_cons_self)]
        exact (orderedFields_perm fields).map _
      · exact messageList_mirrors _ _ messages d.messages nested hnested
          (fun p hp => hnumbers p (List.mem_cons_of_mem _ hp)) hmessages hall
      · exact enums_mirror henums (congrArg Descriptor.Message.enums hsurface)

theorem messageList_mirrors : ∀ (scope : String) (level : Nat) (ms dd : List Descriptor.Message)
    (ss : List Schema.Message), messageList ds file dialect scope level ms = .ok ss →
      Numbered (Descriptor.Message.trees scope ms) → (∀ d ∈ dd, d.HasInt32) →
      Descriptor.Message.bareAll ms = Descriptor.Message.bareAll dd →
        List.Forall₂ MessageMirrors dd ss
  | _, _, [], dd, ss, h, _, _, hbare => by
    cases h
    cases dd with
    | nil => exact .nil
    | cons d dd => cases hbare
  | scope, level, m :: ms, dd, ss, h, hnumbers, hdd, hbare => by
    simp only [messageList] at h
    obtain ⟨first, hfirst, h⟩ := bind_eq_ok h
    obtain ⟨rest, hrest, h⟩ := bind_eq_ok h
    cases h
    cases dd with
    | nil => cases hbare
    | cons d dd =>
      obtain ⟨hm, hms⟩ := List.cons.inj hbare
      refine .cons ?_ ?_
      · exact message_mirrors scope level m d first hfirst
          (fun p hp => hnumbers p (List.mem_append_left _ hp)) (hdd d List.mem_cons_self) hm
      · exact messageList_mirrors scope level ms dd rest hrest
          (fun p hp => hnumbers p (List.mem_append_right _ hp))
          (fun e he => hdd e (List.mem_cons_of_mem _ he)) hms

end

/-- The snapshot of a linked file mirrors the file that it comes from. -/
theorem file_mirrors {f d : Descriptor.File} {s : Schema.File} (h : Snapshot.file ds f = .ok s)
    (hnumbers : Numbered f.messageTree) (hd : d.HasInt32) (hbare : f.bare = d.bare) :
    FileMirrors d s := by
  obtain ⟨messages, hmessages, h⟩ := bind_eq_ok h
  cases h
  obtain ⟨hname, hpackage, himports⟩ := Descriptor.File.same_of_bare hbare
  exact ⟨hname, hpackage, himports,
    messageList_mirrors _ _ _ _ _ hmessages hnumbers hd.messages
      (congrArg Descriptor.File.messages hbare),
    enums_mirror hd.enums (congrArg Descriptor.File.enums hbare),
    services_mirror (congrArg Descriptor.File.services hbare)⟩

end
end SchemaTree
