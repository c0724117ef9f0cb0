import SchemaTree.Outline.Document
import SchemaTree.Proofs.Loader.Effect
import SchemaTree.Proofs.Sequence
import SchemaTree.Stats
import SchemaTree.Tree

/-!
# Calls in any order

What a call stores and what it comes to do not depend on the registry it is run on. So calls without a
name in common store side by side, and no order of them can be told from another afterwards.
-/

namespace SchemaTree.Loader

/-! ### Calls one after the other -/

/-- Runs calls on a registry: the registry after them and what each of them comes to. -/
def performAll : List Call → Registry → Registry × List (Except Failure Nat)
  | [], r => (r, [])
  | call :: calls, r =>
    let (next, outcome) := call.perform r
    let (last, outcomes) := performAll calls next
    (last, outcome :: outcomes)

/-- The names of the files that a call registers when it is run alone. -/
def Call.registered (call : Call) : List String := (call.perform ∅).1.names

/-- What calls store, one after the other. -/
def allStores (calls : List Call) : List (String × Schema.File) := calls.flatMap fun call => call.load.stores

theorem performAll_eq (calls : List Call) (r : Registry) :
    performAll calls r = (r.putAll (allStores calls), calls.map fun call => call.load.outcome) := by
  induction calls generalizing r with
  | nil => rfl
  | cons call calls ih =>
    have hstores : allStores (call :: calls) = call.load.stores ++ allStores calls := List.flatMap_cons
    simp only [performAll, call.perform_eq, ih, hstores, Registry.putAll_append]
    rfl

theorem Call.mem_registered (call : Call) {name : String} :
    name ∈ call.registered ↔ name ∈ call.load.stores.map (·.1) := by
  have hrun : (call.perform ∅).1 = (∅ : Registry).putAll call.load.stores := by
    rw [call.perform_eq]
    rfl
  have hempty : name ∉ (∅ : Registry).names := List.not_mem_nil
  rw [Call.registered, hrun, Registry.mem_names_putAll, or_iff_left hempty]

/-! ### Orders -/

/-- Calls without a name in common store no name twice. -/
theorem allStores_nodup {calls : List Call}
    (hdisjoint : calls.Pairwise fun a b => a.registered.Disjoint b.registered) :
    ((allStores calls).map (·.1)).Nodup := by
  rw [allStores, List.map_flatMap, List.nodup_flatMap]
  constructor
  · intro call _
    exact call.stores_nodup
  · apply hdisjoint.imp
    intro a b hab name ha hb
    exact hab (a.mem_registered.mpr ha) (b.mem_registered.mpr hb)

theorem performAll_registry {order calls : List Call} (hperm : order.Perm calls)
    (hdisjoint : calls.Pairwise fun a b => a.registered.Disjoint b.registered) (start : Registry) :
    (performAll order start).1 = (performAll calls start).1 := by
  have hstores : (allStores order).Perm (allStores calls) := hperm.flatMap_right _
  have hnodup := allStores_nodup hdisjoint
  have hnodup' : ((allStores order).map (·.1)).Nodup := (hstores.map _).nodup_iff.mpr hnodup
  rw [performAll_eq, performAll_eq]
  -- Where no name is stored twice, what is found under a name does not depend on where it stands.
  apply Registry.ext_get?
  intro name
  have horder := Registry.get?_foldl_put _ hnodup' start name
  have hcalls := Registry.get?_foldl_put _ hnodup start name
  have hlookup := lookup_eq_of_perm hstores hnodup' name
  rw [Registry.putAll, Registry.putAll, horder, hcalls, hlookup]

/-- Calls that succeed alone and register no name in common succeed in every order, each with its own
number of files. They lead to one registry, which is shown, outlined and counted in one way. -/
theorem performAll_order (start : Registry) {calls : List Call} {count : Call → Nat}
    (hsucceeds : ∀ call ∈ calls, (call.perform ∅).2 = .ok (count call))
    (hdisjoint : calls.Pairwise fun a b => a.registered.Disjoint b.registered) :
    ∀ order : List Call, order.Perm calls →
      let last := (performAll calls start).1
      (performAll order start).2 = order.map (fun call => .ok (count call)) ∧
      (performAll order start).1 = last ∧
      (∀ (σ : Type) (emit : σ → String → σ) indent sink,
        Tree.write emit indent (performAll order start).1 sink = Tree.write emit indent last sink) ∧
      (∀ indent, Tree.text indent (performAll order start).1 = Tree.text indent last) ∧
      Outline.ofRegistry (performAll order start).1 = Outline.ofRegistry last ∧
      Outline.json (performAll order start).1 = Outline.json last ∧
      Stats.ofRegistry (performAll order start).1 = Stats.ofRegistry last := by
  intro order hperm last
  have hlast : (performAll order start).1 = last := performAll_registry hperm hdisjoint start
  have houtcomes : (performAll order start).2 = order.map fun call => .ok (count call) := by
    rw [performAll_eq]
    apply List.map_congr_left
    intro call hcall
    have hcount := hsucceeds call (hperm.mem_iff.mp hcall)
    rwa [call.perform_eq] at hcount
  rw [hlast]
  exact ⟨houtcomes, rfl, fun _ _ _ _ => rfl, fun _ => rfl, rfl, rfl, rfl⟩

/-- A call that compiles two sources from memory, one that loads a set of a single file, and one that
compiles a source whose import is in a file on a disk. -/
def mixedCalls : List Call :=
  [.files { contents := [("a.proto", "message A \x7b\x7d"), ("b.proto", "message B \x7b\x7d")] } {}
      ["b.proto", "a.proto"],
    .set [0x0a, 0x09, 0x0a, 0x07, 0x63, 0x2e, 0x70, 0x72, 0x6f, 0x74, 0x6f],
    .file { contents := [("d.proto", "import \"a.proto\"; message D \x7b optional A a = 1; \x7d"),
      ("a.proto", "message A \x7b\x7d")] } {} "d.proto"]

/-- The import of the last call stays unregistered, so that the calls have no name in common. -/
theorem performAll_order_mixed :
    let start := (performAll [.file { contents := [("b.proto", "")] } {} "b.proto"] ∅).1
    let last := (performAll mixedCalls start).1
    (performAll mixedCalls.reverse start).2 = [.ok 1, .ok 1, .ok 2] ∧
    last.names = ["a.proto", "b.proto", "c.proto", "d.proto"] ∧
    Tree.text "  " (performAll mixedCalls.reverse start).1 = Tree.text "  " last := by
  intro start last
  let count : Call → Nat
    | .files .. => 2
    | _ => 1
  have hsucceeds : ∀ call ∈ mixedCalls, (call.perform ∅).2 = .ok (count call) := by decide +kernel
  have hnames : mixedCalls.map Call.registered = [["a.proto", "b.proto"], ["c.proto"], ["d.proto"]] := by
    decide +kernel
  have hdisjoint : mixedCalls.Pairwise fun a b => a.registered.Disjoint b.registered := by
    rw [← List.pairwise_map (R := List.Disjoint), hnames]
    simp
  obtain ⟨houtcomes, -, -, htext, -⟩ := performAll_order start hsucceeds hdisjoint mixedCalls.reverse
    mixedCalls.reverse_perm
  refine ⟨houtcomes, ?_, htext "  "⟩
  decide +kernel

end SchemaTree.Loader
