import Mathlib.Data.List.Induction
import SchemaTree.Proofs.Loader.Effect
import SchemaTree.Proofs.Text.ByteOrder
import SchemaTree.Proofs.Tree.Title

/-!
# Registries over whole runs

A registry that has come about by any changes, one after the other, holds what was stored last under each
name. Its names ascend as bytes, and no change but starting over takes one away. If every file has been
stored under its own name, the names are those that the text tree and the outline show.
-/

namespace SchemaTree

/-! ### Changes -/

/-- One change of a registry. -/
inductive Change
  | put (name : String) (file : Schema.File)
  | insert (file : Schema.File)
  | extend (files : List Schema.File)
  /-- A registry made of some files takes the place of the one before. -/
  | collect (files : List Schema.File)
  | load (call : Loader.Call)

namespace Change

def apply : Change → Registry → Registry
  | put name file, r => (r.put name file).2
  | insert file, r => (r.insert file).2
  | extend files, r => r.extend files
  | collect files, _ => .ofFiles files
  | load call, r => (call.perform r).1

/-- What a change stores, in order and with the names it is stored under. -/
def stores : Change → List (String × Schema.File)
  | put name file => [(name, file)]
  | insert file => [(file.name, file)]
  | extend files | collect files => files.map fun f => (f.name, f)
  | load call => call.load.stores

/-- What has been stored since the registry was started, after one more change. -/
def record (stored : List (String × Schema.File)) : Change → List (String × Schema.File)
  | collect files => (collect files).stores
  | c => stored ++ c.stores

end Change

/-- The registry that some changes lead to from an empty one. -/
def Registry.after (changes : List Change) : Registry := changes.foldl (fun r c => c.apply r) ∅

/-- What some changes have stored since the registry was last started over. -/
def history (changes : List Change) : List (String × Schema.File) := changes.foldl Change.record []

/-! ### What one change keeps -/

/-- A change stores what it stores in the registry before it, or in an empty one. -/
theorem Change.apply_eq (c : Change) (r : Registry) : c.apply r = match c with
    | .collect files => (∅ : Registry).putAll (Change.collect files).stores
    | c => r.putAll c.stores := by
  cases c with
  | put name file => rfl
  | insert file => rfl
  | extend files => exact r.extend_eq files
  | collect files => exact Registry.extend_eq ∅ files
  | load call =>
    show (call.perform r).1 = call.load.run r
    rw [call.perform_eq]

theorem names_apply {c : Change} (hc : ∀ files, c ≠ .collect files) {r : Registry} {name : String}
    (h : name ∈ r.names) : name ∈ (c.apply r).names := by
  rw [c.apply_eq]
  cases c with
  | collect files => exact absurd rfl (hc files)
  | put _ _ | insert _ | extend _ | load _ => exact (r.mem_names_putAll _).mpr (.inr h)

/-! ### What a run keeps -/

theorem after_concat (changes : List Change) (c : Change) :
    Registry.after (changes ++ [c]) = c.apply (Registry.after changes) := by
  rw [Registry.after, List.foldl_append]
  rfl

theorem history_concat (changes : List Change) (c : Change) :
    history (changes ++ [c]) = c.record (history changes) := by
  rw [history, List.foldl_append]
  rfl

/-- A registry is what has been stored since it was last started over. -/
theorem after_eq (changes : List Change) : Registry.after changes = (∅ : Registry).putAll (history changes) := by
  induction changes using List.reverseRecOn with
  | nil => rfl
  | append_singleton changes c ih =>
    rw [after_concat, history_concat, c.apply_eq, ih]
    cases c with
    | collect files => rfl
    | put _ _ | insert _ | extend _ | load _ => exact (Registry.putAll_append ∅ _ _).symm

/-- No changes but starting over take a name away. -/
theorem names_after (changes : List Change) {later : List Change}
    (h : ∀ c ∈ later, ∀ files, c ≠ .collect files) {name : String}
    (hname : name ∈ (Registry.after changes).names) : name ∈ (Registry.after (changes ++ later)).names := by
  induction later using List.reverseRecOn with
  | nil => rwa [List.append_nil]
  | append_singleton later c ih =>
    obtain ⟨hlater, hlast⟩ := List.forall_mem_append.mp h
    rw [← List.append_assoc, after_concat]
    exact names_apply (hlast c List.mem_cons_self) (ih hlater)

/-! ### Files under their own names -/

/-- Whether a change stores every file under its own name. -/
def Change.IsFaithful : Change → Prop
  | put name file => name = file.name
  | insert _ | extend _ | collect _ | load _ => True

theorem Change.IsFaithful.stores {c : Change} (h : c.IsFaithful) : ∀ s ∈ c.stores, s.1 = s.2.name := by
  have hown (files : List Schema.File) : ∀ s ∈ files.map fun f => (f.name, f), s.1 = s.2.name := by simp
  cases c with
  | put name file => simpa [Change.stores, Change.IsFaithful] using h
  | insert file => simp [Change.stores]
  | extend files => exact hown files
  | collect files => exact hown files
  | load call =>
    intro s hs
    exact (call.stores_explained.1 s hs).symm

theorem history_faithful {changes : List Change} (h : ∀ c ∈ changes, c.IsFaithful) :
    ∀ s ∈ history changes, s.1 = s.2.name := by
  induction changes using List.reverseRecOn with
  | nil => simp [history]
  | append_singleton changes c ih =>
    obtain ⟨hearlier, hlast⟩ := List.forall_mem_append.mp h
    have hstores := (hlast c List.mem_cons_self).stores
    have hboth := List.forall_mem_append.mpr ⟨ih hearlier, hstores⟩
    rw [history_concat]
    cases c with
    | collect files => exact hstores
    | put _ _ | insert _ | extend _ | load _ => exact hboth

theorem names_of_faithful {changes : List Change} (h : ∀ c ∈ changes, c.IsFaithful) :
    ∀ e ∈ (Registry.after changes).entries, e.1 = e.2.name := by
  rintro ⟨name, file⟩ he
  have hget := (Registry.after changes).get?_eq_some.mpr he
  rw [after_eq, Registry.get?_putAll, Registry.get?_empty, Option.or_none] at hget
  have hmem := mem_of_lookup hget
  exact history_faithful h _ (List.mem_reverse.mp hmem)

theorem files_names {r : Registry} (h : ∀ e ∈ r.entries, e.1 = e.2.name) :
    r.files.map (·.name) = r.names := by
  rw [Registry.files, Registry.names, List.map_map]
  exact List.map_congr_left fun e he => (h e he).symm

/-- After any changes a registry holds the file stored last under each name, in the order of the names
as bytes. If every file was stored under its own name, the text tree and the outline show these names,
each of them once. -/
theorem after_changes (changes : List Change) :
    let r := Registry.after changes
    (r.names.Pairwise fun a b => Wire.textBytes a < Wire.textBytes b) ∧
    r.size = r.names.length ∧
    (∀ name, r.get? name = (history changes).reverse.lookup name) ∧
    (∀ name file, (r.put name file).1 = r.get? name ∧
      ∀ other, (r.put name file).2.get? other = if other = name then some file else r.get? other) ∧
    (∀ file, (r.insert file).1 = r.get? file.name) ∧
    r.names.map r.get? = r.files.map some ∧
    (∀ later : List Change, (∀ c ∈ later, ∀ files, c ≠ .collect files) →
      r.names ⊆ (Registry.after (changes ++ later)).names) ∧
    ((∀ c ∈ changes, c.IsFaithful) →
      (∀ e ∈ r.entries, e.1 = e.2.name) ∧
      (∀ indent, (Tree.lines indent r).filterMap Tree.title? = r.names) ∧
      (Outline.ofRegistry r).map (·.name) = r.names ∧
      ((Outline.ofRegistry r).map (·.name)).Nodup) := by
  intro r
  have hbytes : r.names.Pairwise fun a b => Wire.textBytes a < Wire.textBytes b := by
    apply r.names_sorted.imp
    intro a b hlt
    exact Wire.textBytes_lt_textBytes.mpr hlt
  have hlast (name : String) : r.get? name = (history changes).reverse.lookup name := by
    have hget := Registry.get?_putAll ∅ (history changes) name
    rwa [Registry.get?_empty, Option.or_none, ← after_eq] at hget
  refine ⟨hbytes, r.length_names.symm, hlast, ?_, ?_, r.map_get?_names, ?_, ?_⟩
  · intro name file
    exact ⟨r.replaced_put name file, fun other => r.get?_put name other file⟩
  · intro file
    exact r.replaced_put file.name file
  · intro later hlater name hname
    exact names_after changes hlater hname
  · intro hfaithful
    have hkeys := names_of_faithful hfaithful
    have hnames := files_names hkeys
    have houtline : (Outline.ofRegistry r).map (·.name) = r.names := by
      rw [Outline.ofRegistry_eq_map, List.map_map]
      exact hnames
    refine ⟨hkeys, ?_, houtline, ?_⟩
    · intro indent
      rw [Tree.titles_lines, hnames]
    · rw [houtline]
      exact r.names_nodup

private def bareFile (name package : String) : Schema.File :=
  { name, dialect := .proto3, package, imports := [], messages := [], enums := [], services := [] }

/-- The later of two files of one name is the one that is found, and its title stands once. -/
theorem after_changes_replaced :
    let changes : List Change := [.put "b.proto" (bareFile "b.proto" "x"),
      .extend [bareFile "a.proto" "x", bareFile "b.proto" "y"]]
    (∀ c ∈ changes, c.IsFaithful) ∧
    (Registry.after changes).get? "b.proto" = some (bareFile "b.proto" "y") ∧
    (Tree.lines "" (Registry.after changes)).filterMap Tree.title? = ["a.proto", "b.proto"] := by
  intro changes
  have hfaithful : ∀ c ∈ changes, c.IsFaithful := by
    simp [changes, Change.IsFaithful, bareFile]
  obtain ⟨-, -, hlast, -, -, -, -, hown⟩ := after_changes changes
  obtain ⟨-, htitles, -, -⟩ := hown hfaithful
  refine ⟨hfaithful, ?_, ?_⟩
  · rw [hlast]
    decide
  · rw [htitles]
    decide

end SchemaTree
