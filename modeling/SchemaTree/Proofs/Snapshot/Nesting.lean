import SchemaTree.Proofs.Snapshot.Depth

/-!
# The limit of nesting

A file whose enum defaults can be found fails for one reason only: a message below the last level that is
allowed. The failure names the first such message, where each message comes before those nested in it. A
file without one has a snapshot with every message at its own level.
-/

namespace SchemaTree

/-! ### Levels of a snapshot -/

namespace Schema

mutual

/-- The full names of a message and those nested in it, with their levels of nesting. -/
def Message.levels (level : Nat) : Message → List (String × Nat)
  | ⟨_, fullName, _, messages, _⟩ => (fullName, level) :: Message.levelsOfAll (level + 1) messages

def Message.levelsOfAll (level : Nat) : List Message → List (String × Nat)
  | [] => []
  | m :: ms => Message.levels level m ++ Message.levelsOfAll level ms

end

def File.levels (file : File) : List (String × Nat) := Message.levelsOfAll 1 file.messages

end Schema

namespace Snapshot
open Descriptor
open Pool (Declaration)
open Schema (Dialect)

/-! ### Reading messages up to the limit -/

/-- What reading messages with some levels comes to: a result with the same levels, or a failure at the
first message beyond the limit. -/
inductive Limited {α : Type} (file : String) (levelsOf : α → List (String × Nat)) :
    List (String × Nat) → Except Failure α → Prop
  | within {a : α} (bounded : ∀ p ∈ levelsOf a, p.2 ≤ limit) : Limited file levelsOf (levelsOf a) (.ok a)
  | beyond {before after : List (String × Nat)} {entity : String} (bounded : ∀ p ∈ before, p.2 ≤ limit) :
    Limited file levelsOf (before ++ (entity, limit + 1) :: after) (.error (.tooDeep file entity limit))

section
variable {ds : List Declaration} {file : String} {dialect : Dialect}

mutual

theorem message_limited : ∀ (scope : String) (level : Nat) (m : Message), level ≤ limit + 1 →
    FieldsShown ds file dialect (Message.tree scope m) →
      Limited file (Schema.Message.levels level) (levels scope level m)
        (message ds file dialect scope level m)
  | scope, level, ⟨name, fields, _, messages, enums, _, _, _, _, _⟩, hlevel, h => by
    obtain ⟨hown, hnested⟩ := List.forall_mem_cons.mp h
    rw [message, levels]
    by_cases hdeep : limit < level
    · have hnext : level = limit + 1 := by omega
      have hbefore : ∀ p ∈ ([] : List (String × Nat)), p.2 ≤ limit := nofun
      rw [if_pos hdeep, hnext]
      exact .beyond hbefore
    · have hwithin : level ≤ limit := by omega
      have hordered : ∀ x ∈ orderedFields fields,
          ∃ y, field ds file (qualify scope name) dialect x = .ok y :=
        fun x hx => hown x ((orderedFields_perm fields).mem_iff.mp hx)
      obtain ⟨shown, hshown⟩ := mapM_ok hordered
      rw [if_neg hdeep, hshown]
      have hinner := messageList_limited (qualify scope name) (level + 1) messages (by omega) hnested
      generalize levelsList (qualify scope name) (level + 1) messages = inner at hinner
      generalize messageList ds file dialect (qualify scope name) (level + 1) messages = result at hinner
      cases hinner with
      | @within nested hbounded =>
        have hall : ∀ p ∈ Schema.Message.levels level
            ⟨name, qualify scope name, shown, nested, enums.map enum⟩, p.2 ≤ limit :=
          List.forall_mem_cons.mpr ⟨hwithin, hbounded⟩
        exact .within hall
      | beyond hbounded => exact .beyond (List.forall_mem_cons.mpr ⟨hwithin, hbounded⟩)

theorem messageList_limited : ∀ (scope : String) (level : Nat) (ms : List Message), level ≤ limit + 1 →
    FieldsShown ds file dialect (Message.trees scope ms) →
      Limited file (Schema.Message.levelsOfAll level) (levelsList scope level ms)
        (messageList ds file dialect scope level ms)
  | _, level, [], _, _ => .within (a := []) nofun
  | scope, level, m :: ms, hlevel, h => by
    obtain ⟨hfirst, hrest⟩ := List.forall_mem_append.mp h
    have hm := message_limited scope level m hlevel hfirst
    have hms := messageList_limited scope level ms hlevel hrest
    rw [messageList, levelsList]
    generalize levels scope level m = outer at hm
    generalize message ds file dialect scope level m = first at hm
    generalize levelsList scope level ms = inner at hms
    generalize messageList ds file dialect scope level ms = rest at hms
    cases hm with
    | beyond hbounded =>
      rw [List.append_assoc]
      exact .beyond hbounded
    | @within s hbounded =>
      cases hms with
      | @within ss hbounded' =>
        have hall : ∀ p ∈ Schema.Message.levelsOfAll level (s :: ss), p.2 ≤ limit :=
          List.forall_mem_append.mpr ⟨hbounded, hbounded'⟩
        exact .within hall
      | beyond hbounded' =>
        rw [← List.append_assoc]
        exact .beyond (List.forall_mem_append.mpr ⟨hbounded, hbounded'⟩)

end

end

/-! ### Files -/

/-- Whether a value is found for the default of every field that holds an enum. -/
def DefaultsFound (ds : List Declaration) (f : File) : Prop :=
  ∀ p ∈ f.messageTree, ∀ x ∈ p.2.fields, x.typeCode = enumCode →
    ∃ value, default ds f.name (qualify p.1 x.name) x = .ok value

theorem DefaultsFound.fieldsShown {ds : List Declaration} {f : File} (h : DefaultsFound ds f)
    (dialect : Dialect) : FieldsShown ds f.name dialect f.messageTree := by
  intro p hp x hx
  apply field_ok
  by_cases hcode : x.typeCode = enumCode
  · exact h p hp x hx hcode
  · exact ⟨_, default_scalar hcode⟩

theorem file_limited {ds : List Declaration} {f : File} (h : DefaultsFound ds f) :
    Limited f.name Schema.File.levels (levelsList f.package 1 f.messages) (file ds f) := by
  have hmessages := messageList_limited f.package 1 f.messages (by decide)
    (h.fieldsShown (Pool.dialectOf f))
  rw [file]
  generalize levelsList f.package 1 f.messages = levels at hmessages
  generalize messageList ds f.name (Pool.dialectOf f) f.package 1 f.messages = result at hmessages
  cases hmessages with
  | @within messages hbounded =>
    have hall : ∀ p ∈ Schema.File.levels ⟨f.name, Pool.dialectOf f, f.package, f.imports, messages,
        f.enums.map enum, f.services.map (service ds)⟩, p.2 ≤ limit := hbounded
    exact .within hall
  | beyond hbounded => exact .beyond hbounded

/-- A file has a snapshot exactly if no message is below level 1000, and each message is then at its own
level. Otherwise the failure names the first message at level 1001. -/
theorem file_nesting (ds : List Declaration) (f : File) (h : DefaultsFound ds f) :
    ((∃ s, file ds f = .ok s) ↔ ∀ p ∈ levelsList f.package 1 f.messages, p.2 ≤ 1000) ∧
    (∀ s, file ds f = .ok s → s.levels = levelsList f.package 1 f.messages) ∧
    ∀ failure, file ds f = .error failure → ∃ before entity after,
      levelsList f.package 1 f.messages = before ++ (entity, 1001) :: after ∧
      (∀ p ∈ before, p.2 ≤ 1000) ∧ failure = .tooDeep f.name entity 1000 := by
  have hlimited := file_limited h
  generalize levelsList f.package 1 f.messages = levels at hlimited ⊢
  generalize file ds f = result at hlimited ⊢
  cases hlimited with
  | @within s hbounded =>
    refine ⟨⟨fun _ => hbounded, fun _ => ⟨s, rfl⟩⟩, ?_, nofun⟩
    intro s' hs'
    cases hs'
    rfl
  | @beyond before after entity hbounded =>
    refine ⟨⟨nofun, ?_⟩, nofun, ?_⟩
    · intro hall
      have hdeep : limit + 1 ≤ 1000 := hall _ (List.mem_append_right before List.mem_cons_self)
      exact absurd hdeep (by decide)
    · intro failure hfailure
      cases hfailure
      exact ⟨before, entity, after, rfl, hbounded, rfl⟩

/-- A file with a message nested in another one, and a default that names a value of an enum. -/
def defaulted : File where
  name := "a.proto"
  messages := [{
    name := "M"
    fields := [{ name := "e", number := 1, typeCode := enumCode, typeName := ".E", defaultText := some "B" }]
    messages := [{ name := "N" }] }]
  enums := [{ name := "E", values := [{ name := "A" }, { name := "B", number := 1 }] }]

theorem defaulted_defaults : DefaultsFound (Pool.declarationsOf defaulted) defaulted := by
  have hall : defaulted.messageTree.all (fun p => p.2.fields.all fun x =>
      (default (Pool.declarationsOf defaulted) "a.proto" (qualify p.1 x.name) x).isOk) = true := by
    decide +kernel
  intro p hp x hx _
  have hok := List.all_eq_true.mp (List.all_eq_true.mp hall p hp) x hx
  cases hvalue : default (Pool.declarationsOf defaulted) "a.proto" (qualify p.1 x.name) x with
  | ok value => exact ⟨value, hvalue⟩
  | error failure =>
    rw [hvalue] at hok
    cases hok

/-- A message with a number of levels of messages in it. -/
def nest : Nat → Message
  | 0 => { name := "M" }
  | n + 1 => { name := "M", messages := [nest n] }

/-- The full name of the message at the bottom of a nest. -/
def innermost (scope : String) : Nat → String
  | 0 => qualify scope "M"
  | n + 1 => innermost (qualify scope "M") n

theorem levels_nest (scope : String) (level n : Nat) : ∃ outer,
    levels scope level (nest n) = outer ++ [(innermost scope n, level + n)] ∧
      ∀ p ∈ outer, p.2 < level + n := by
  induction n generalizing scope level with
  | zero => exact ⟨[], rfl, by simp⟩
  | succ n ih =>
    obtain ⟨outer, hlevels, hbounded⟩ := ih (qualify scope "M") (level + 1)
    have hshift : level + 1 + n = level + (n + 1) := by omega
    rw [hshift] at hlevels hbounded
    refine ⟨(qualify scope "M", level) :: outer, ?_, List.forall_mem_cons.mpr ⟨by omega, hbounded⟩⟩
    rw [nest, levels, levelsList, levelsList, List.append_nil, hlevels]
    rfl

theorem fields_nest (scope : String) (n : Nat) : ∀ p ∈ Message.tree scope (nest n), p.2.fields = [] := by
  induction n generalizing scope with
  | zero => simp [nest, Message.tree, Message.trees]
  | succ n ih =>
    rw [nest, Message.tree, Message.trees, Message.trees, List.append_nil]
    exact List.forall_mem_cons.mpr ⟨rfl, ih _⟩

/-- A file with 1001 levels of messages, and a message before them. -/
def deep : File where
  name := "deep.proto"
  messages := [{ name := "K" }, nest 1000]

theorem deep_defaults : DefaultsFound [] deep := by
  have hnone : ∀ p ∈ deep.messageTree, p.2.fields = [] := by
    show ∀ p ∈ Message.trees "" [{ name := "K" }, nest 1000], p.2.fields = []
    rw [Message.trees, Message.trees, Message.trees, List.append_nil]
    exact List.forall_mem_append.mpr ⟨by simp [Message.tree, Message.trees], fields_nest "" 1000⟩
  intro p hp x hx
  rw [hnone p hp] at hx
  cases hx

theorem deep_levels : ∃ outer, levelsList deep.package 1 deep.messages =
    outer ++ [(innermost "" 1000, 1001)] ∧ ∀ p ∈ outer, p.2 ≤ 1000 := by
  obtain ⟨outer, hlevels, hbounded⟩ := levels_nest "" 1 1000
  refine ⟨("K", 1) :: outer, ?_, List.forall_mem_cons.mpr ⟨by decide, ?_⟩⟩
  · show levelsList "" 1 [{ name := "K" }, nest 1000] = _
    rw [levelsList, levelsList, levelsList, List.append_nil, hlevels]
    rfl
  · intro p hp
    have hlt := hbounded p hp
    omega

/-- The first of two files has a snapshot, the second one fails at its innermost message. -/
theorem file_nesting_deep :
    (DefaultsFound (Pool.declarationsOf defaulted) defaulted ∧
      ∃ s, file (Pool.declarationsOf defaulted) defaulted = .ok s ∧ s.levels = [("M", 1), ("M.N", 2)]) ∧
    DefaultsFound [] deep ∧
      file [] deep = .error (.tooDeep "deep.proto" (innermost "" 1000) 1000) := by
  refine ⟨⟨defaulted_defaults, ?_⟩, deep_defaults, ?_⟩
  · obtain ⟨hiff, hlevels, -⟩ := file_nesting (Pool.declarationsOf defaulted) defaulted defaulted_defaults
    obtain ⟨s, hs⟩ := hiff.mpr (by decide)
    exact ⟨s, hs, hlevels s hs⟩
  · obtain ⟨hiff, -, hfails⟩ := file_nesting [] deep deep_defaults
    obtain ⟨outer, hlevels, hbounded⟩ := deep_levels
    cases hfile : file [] deep with
    | ok s =>
      have hmem : (innermost "" 1000, 1001) ∈ levelsList deep.package 1 deep.messages := by
        rw [hlevels]
        exact List.mem_append_right outer List.mem_cons_self
      have hle : 1001 ≤ 1000 := hiff.mp ⟨s, hfile⟩ _ hmem
      exact absurd hle (by decide)
    | error failure =>
      obtain ⟨before, entity, after, hsplit, -, rfl⟩ := hfails failure hfile
      have hmem : (entity, 1001) ∈ outer ++ [(innermost "" 1000, 1001)] := by
        rw [← hlevels, hsplit]
        exact List.mem_append_right before List.mem_cons_self
      rcases List.mem_append.mp hmem with houter | hlast
      · have hle : 1001 ≤ 1000 := hbounded _ houter
        exact absurd hle (by decide)
      · obtain ⟨hentity, -⟩ := Prod.mk.inj (List.mem_singleton.mp hlast)
        rw [hentity]
        rfl

end Snapshot
end SchemaTree
