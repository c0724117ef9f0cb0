import SchemaTree.Proofs.Snapshot.Kinds
import SchemaTree.Proofs.Text.Lines
import SchemaTree.Proofs.Tree.Rebuild

/-!
# Line breaks in a text tree

The lines of a text tree take names and default clauses as they are. A line stays one line exactly if none
of those in it has a line break, and the text of a registry is cut into its lines again exactly if none of
those in the whole tree has one.
-/

namespace SchemaTree.Tree
open Text (IsOneLine isOneLine_append)

/-! ### Lines of items -/

/-- The texts that an item takes over as they are. -/
def Item.texts : Item → List String
  | gap => []
  | title name => [name]
  | label word text => [word, text]
  | heading word => [word]
  | imported name => [name]
  | block word name => [word, name]
  | field f => String.singleton f.marker :: f.type :: f.name :: f.defaultClause.toList
  | value v => [v.name]
  | method m => [m.name, m.input, m.output]
  | close => []

theorem isOneLine_clauseText (clause : Option String) :
    IsOneLine (clauseText clause) ↔ ∀ text ∈ clause.toList, IsOneLine text := by
  cases clause with
  | none => decide
  | some text =>
    have hsign : IsOneLine " = " := by decide
    simp only [clauseText, isOneLine_append, hsign, true_and, Option.toList_some,
      List.forall_mem_singleton]

theorem isOneLine_endpoint (streaming : Bool) (name : String) :
    IsOneLine (endpoint streaming name) ↔ IsOneLine name := by
  have hword : IsOneLine "stream " := by decide
  cases streaming with
  | false => rfl
  | true => simp only [endpoint, if_true, isOneLine_append, hword, true_and]

theorem isOneLine_text (item : Item) : IsOneLine item.text ↔ ∀ text ∈ item.texts, IsOneLine text := by
  have hblank : IsOneLine " " := by decide
  have hopen : IsOneLine " \x7b" := by decide
  have hend : IsOneLine ";" := by decide
  cases item with
  | gap =>
    refine ⟨fun _ => nofun, fun _ => ?_⟩
    exact List.not_mem_nil
  | title name =>
    have hbefore : IsOneLine "======== Proto File: " := by decide +kernel
    have hafter : IsOneLine " ========" := by decide
    rw [Item.text, titleText_eq, isOneLine_append, isOneLine_append, and_iff_left hafter,
      and_iff_right hbefore, Item.texts, List.forall_mem_singleton]
  | label word text =>
    have hcolon : IsOneLine ": " := by decide
    simp only [Item.text, isOneLine_append, hcolon, and_true, Item.texts, List.forall_mem_cons,
      List.not_mem_nil, false_imp_iff, implies_true]
  | heading word =>
    have hcolon : IsOneLine ":" := by decide
    simp only [Item.text, isOneLine_append, hcolon, and_true, Item.texts, List.forall_mem_singleton]
  | imported name =>
    have hbullet : IsOneLine "  - " := by decide
    simp only [Item.text, isOneLine_append, hbullet, true_and, Item.texts, List.forall_mem_singleton]
  | block word name =>
    simp only [Item.text, isOneLine_append, hblank, hopen, and_true, Item.texts, List.forall_mem_cons,
      List.not_mem_nil, false_imp_iff, implies_true]
  | field f =>
    have hbefore : IsOneLine " [" := by decide
    have hafter : IsOneLine "]" := by decide
    simp only [Item.text, isOneLine_append, hbefore, hafter, hblank, hend, isOneLine_clauseText, true_and,
      and_true, Item.texts, List.forall_mem_cons, and_assoc]
  | value v =>
    have hindent : IsOneLine "  " := by decide
    have hsign : IsOneLine " = " := by decide
    simp only [Item.text, valueLine, isOneLine_append, hindent, hsign, hend, Text.isOneLine_intText,
      true_and, and_true, Item.texts, List.forall_mem_singleton]
  | method m =>
    have hrpc : IsOneLine "  rpc " := by decide
    have hparen : IsOneLine " (" := by decide
    have hreturns : IsOneLine ") returns (" := by decide
    have hclose : IsOneLine ");" := by decide
    simp only [Item.text, methodLine, isOneLine_append, hrpc, hparen, hreturns, hclose,
      isOneLine_endpoint, true_and, and_true, Item.texts, List.forall_mem_cons,
      List.not_mem_nil, false_imp_iff, implies_true, and_assoc]
  | close => decide

theorem isOneLine_margin {indent : String} (h : IsOneLine indent) (depth : Nat) :
    IsOneLine (margin indent depth) := by
  have key (start : String) (hs : IsOneLine start) :
      IsOneLine ((List.replicate depth indent).foldl (· ++ ·) start) := by
    induction depth generalizing start with
    | zero => exact hs
    | succ depth ih => exact ih (start ++ indent) (isOneLine_append.mpr ⟨hs, h⟩)
  exact key "" (by decide)

theorem isOneLine_line {indent : String} (h : IsOneLine indent) (p : Nat × Item) :
    IsOneLine (line indent p) ↔ ∀ text ∈ p.2.texts, IsOneLine text := by
  have hmargin := isOneLine_margin h p.1
  rw [line, isOneLine_append, isOneLine_text]
  exact and_iff_right hmargin

/-! ### Lines of events -/

/-- All names in the lines of an event; of a file they are its own name, its package and its imports. -/
def writtenNames : Event → List String
  | .beginFile f => f.name :: f.package :: f.imports
  | e => eventNames e

/-- All names in the lines of a registry. -/
def allNames (registry : Registry) : List String := registry.events.flatMap writtenNames

/-- The default clause in the line of an event. -/
def writtenClause? : Event → Option String
  | .field f _ => f.defaultClause?
  | _ => none

/-- Whether no name and no default clause in the lines of an event has a line break. -/
structure Unbroken (e : Event) : Prop where
  names : ∀ name ∈ writtenNames e, IsOneLine name
  clause : ∀ clause, writtenClause? e = some clause → IsOneLine clause

theorem unbroken_iff (e : Event) : Unbroken e ↔ (∀ name ∈ writtenNames e, IsOneLine name) ∧
    ∀ clause, writtenClause? e = some clause → IsOneLine clause :=
  ⟨fun ⟨hnames, hclause⟩ => ⟨hnames, hclause⟩, fun ⟨hnames, hclause⟩ => ⟨hnames, hclause⟩⟩

/-- The texts of a block are its name and those of its members. -/
theorem texts_block {depth : Nat} {word name : String} (hword : IsOneLine word) {members : List Item} :
    (∀ p ∈ blockItems depth word name members, ∀ text ∈ p.2.texts, IsOneLine text) ↔
      IsOneLine name ∧ ∀ i ∈ members, ∀ text ∈ i.texts, IsOneLine text := by
  simp only [blockItems, List.forall_mem_append, List.forall_mem_cons, List.forall_mem_map, Item.texts,
    List.not_mem_nil, false_imp_iff, implies_true, and_true, hword, true_and]

theorem texts_header (f : Schema.File) :
    (∀ p ∈ headerItems f.name f.dialect.token f.package f.imports,
        ∀ text ∈ p.2.texts, IsOneLine text) ↔
      IsOneLine f.name ∧ IsOneLine f.package ∧ ∀ name ∈ f.imports, IsOneLine name := by
  have hdialect : IsOneLine f.dialect.token := by cases f.dialect <;> decide
  have hsyntax : IsOneLine "Syntax" := by decide
  have hpackage : IsOneLine "Package" := by decide
  have hpath : IsOneLine "Path" := by decide
  have himports : IsOneLine "Imports" := by decide
  have hlist : (∀ p ∈ if f.imports.isEmpty then [] else
      (0, Item.heading "Imports") :: f.imports.map fun i => (0, Item.imported i),
        ∀ text ∈ p.2.texts, IsOneLine text) ↔ ∀ name ∈ f.imports, IsOneLine name := by
    cases f.imports with
    | nil => exact ⟨nofun, nofun⟩
    | cons first rest =>
      simp only [List.isEmpty_cons, Bool.false_eq_true, if_false, List.forall_mem_cons, List.map_cons,
        List.forall_mem_map, Item.texts, himports, List.not_mem_nil, false_imp_iff, implies_true, and_true,
        true_and]
  rw [headerItems, List.forall_mem_append, hlist]
  simp only [List.forall_mem_cons, Item.texts, hdialect, hsyntax, hpackage, hpath, List.not_mem_nil,
    false_imp_iff, implies_true, and_true, true_and]
  constructor
  · rintro ⟨⟨hname, hpackage, _⟩, himports⟩
    exact ⟨hname, hpackage, himports⟩
  · rintro ⟨hname, hpackage, himports⟩
    exact ⟨⟨hname, hpackage, hname⟩, himports⟩

theorem isOneLine_event {indent : String} (h : IsOneLine indent) (e : Event) :
    (∀ p ∈ eventItems e, IsOneLine (line indent p)) ↔ Unbroken e := by
  simp only [isOneLine_line h, unbroken_iff]
  cases e with
  | beginFile f =>
    rw [eventItems, texts_header]
    simp [writtenNames, writtenClause?]
  | endFile f => simp [eventItems, writtenNames, eventNames, writtenClause?]
  | beginSection title =>
    have htitle : IsOneLine title.title := by cases title <;> decide
    simp [eventItems, Item.texts, writtenNames, eventNames, writtenClause?, htitle]
  | beginMessage m depth =>
    have hword : IsOneLine "message" := by decide
    simp [eventItems, Item.texts, writtenNames, eventNames, writtenClause?, hword]
  | field f depth =>
    have hmarker : IsOneLine (String.singleton f.marker.char) := by cases f.marker <;> decide
    have hkind : IsOneLine f.kind.token := by cases f.kind <;> decide
    simp [eventItems, Item.texts, writtenNames, eventNames, writtenClause?, Outline.Field.unnumbered,
      Outline.Field.of, hmarker, hkind]
  | endMessage m depth => simp [eventItems, Item.texts, writtenNames, eventNames, writtenClause?]
  | enum e depth =>
    rw [eventItems, enumItems, texts_block (by decide)]
    simp [Item.texts, writtenNames, eventNames, writtenClause?]
  | service s depth =>
    rw [eventItems, serviceItems, texts_block (by decide)]
    simp only [Item.texts, writtenNames, eventNames, writtenClause?, List.forall_mem_map,
      List.forall_mem_cons, List.forall_mem_flatMap, reduceCtorEq, false_imp_iff, implies_true, and_true]

/-! ### Default clauses -/

/-- The clause of a default that is a value of the kind of the field is on one line. Only that of an enum
is a name, which need not be. -/
theorem isOneLine_clause {y : Schema.Field} (hvariant : y.defaultValue.variant = y.kind.variant)
    (hkind : y.kind ≠ .enum) {clause : String} (h : y.defaultClause? = some clause) :
    IsOneLine clause := by
  unfold Schema.Field.defaultClause? at h
  split at h
  · cases h
  · cases h
    exact Text.isOneLine_quoted _
  · rename_i hmessage hstring
    cases hvalue : y.defaultValue with
    | absent =>
      rw [hvalue] at h
      cases h
    | string text =>
      rw [hvalue] at hvariant
      exact absurd ((Schema.Kind.variant_eq_string _).mp hvariant.symm) hstring
    | enum name number =>
      rw [hvalue] at hvariant
      exact absurd ((Schema.Kind.variant_eq_enum _).mp hvariant.symm) hkind
    | bool value =>
      rw [hvalue] at h
      cases h
      cases value <;> decide
    | int32 value | int64 value =>
      rw [hvalue] at h
      cases h
      exact Text.isOneLine_intText _
    | uint32 value | uint64 value =>
      rw [hvalue] at h
      cases h
      exact Text.isOneLine_natText _
    | float bits | double bits =>
      rw [hvalue] at h
      cases h
      exact Text.isOneLine_ieee _ _
    | bytes value =>
      rw [hvalue] at h
      cases h
      exact Text.isOneLine_bytesText value

/-! ### The text of a registry -/

theorem toList_text (indent : String) (registry : Registry) : (text indent registry).toList =
    (lines indent registry).flatMap fun line => line.toList ++ ['\n'] := by
  have key (start : String) (ls : List String) :
      (ls.foldl (fun text line => text ++ line ++ "\n") start).toList =
        start.toList ++ ls.flatMap fun line => line.toList ++ ['\n'] := by
    induction ls generalizing start with
    | nil => exact (List.append_nil _).symm
    | cons l ls ih =>
      have hbreak : "\n".toList = ['\n'] := rfl
      rw [List.foldl_cons, ih, List.flatMap_cons, String.toList_append, String.toList_append, hbreak,
        List.append_assoc, List.append_assoc, List.append_assoc]
  exact key "" (lines indent registry)

/-- The text of a registry is cut into its lines at the line breaks exactly if none comes from a name or
a default clause. -/
theorem parts_text {indent : String} (h : IsOneLine indent) (registry : Registry) :
    Text.parts '\n' (text indent registry) = lines indent registry ++ [""] ↔
      ∀ e ∈ registry.events, Unbroken e := by
  rw [Text.parts_ended (toList_text indent registry), lines_eq_events, List.forall_mem_map]
  simp only [List.forall_mem_flatMap]
  exact forall₂_congr fun e _ => isOneLine_event h e

end SchemaTree.Tree
