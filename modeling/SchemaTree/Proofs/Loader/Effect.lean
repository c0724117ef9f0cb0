import SchemaTree.Proofs.Loader.Plan
import SchemaTree.Proofs.Snapshot.Messages

/-!
# The effect of a load

A load takes up the files of its plan one after the other. The only thing that can stop it there is a
file whose messages are nested too deeply, and the files before that one stay stored.
-/

namespace SchemaTree.Loader

/-! ### Files taken up into a registry -/

/-- Takes the files with some names up into a registry, one after the other. -/
def storeInto (pool : Pool) : List String → Registry → Registry × Except Failure Unit
  | [], r => (r, .ok ())
  | name :: names, r =>
    match pool.file? name with
    | none => (r, .error (.unexpected ("file '" ++ name ++ "' missing from descriptor pool")))
    | some file =>
      match Snapshot.file pool.declarations file with
      | .error failure => (r, .error failure)
      | .ok snapshot => storeInto pool names (r.put name snapshot).2

/-- Runs a call on a registry: the registry after it, and the number of names or the failure. -/
def Call.perform (call : Call) (r : Registry) : Registry × Except Failure Nat :=
  match call.plan with
  | .error failure => (r, .error failure)
  | .ok (pool, names) =>
    if names.isEmpty then (r, .error .noFiles)
    else
      let (after, result) := storeInto pool names r
      (after, result.map fun _ => names.length)

theorem run_eq_of_stores {a b : Load} (h : a.stores = b.stores) (r : Registry) : a.run r = b.run r := by
  unfold Load.run
  rw [h]

/-- Taking files up into a registry comes to the same as storing them afterwards. -/
theorem storeInto_eq (pool : Pool) (names : List String) (r : Registry) :
    storeInto pool names r =
      ((storeFiles pool names).run r, (storeFiles pool names).outcome.map fun _ => ()) := by
  induction names generalizing r with
  | nil => rfl
  | cons name names ih =>
    unfold storeInto storeFiles
    cases pool.file? name with
    | none => rfl
    | some f =>
      dsimp only
      cases Snapshot.file pool.declarations f with
      | error failure =>
        dsimp only
        rw [Load.run, Load.stores_failed (convertingNotes f)]
        rfl
      | ok snapshot =>
        dsimp only
        rw [ih, run_eq_of_stores (Load.stores_notes (convertingNotes f) _ _)]
        cases (storeFiles pool names).outcome with
        | error failure => rfl
        | ok n => rfl

/-- The number of names is the number of files that have been stored. -/
theorem storeFiles_outcome (pool : Pool) (names : List String) :
    ((storeFiles pool names).outcome.map fun _ => names.length) =
      (storeFiles pool names).outcome := by
  obtain ⟨_, hends⟩ := storeFiles_accounts pool names
  rcases hends with ⟨hok, hnames⟩ | ⟨_, _, failure, herror, _, _⟩
  · have hlength : names.length = (storeFiles pool names).stores.length := by
      have hmap := congrArg List.length hnames
      rw [List.length_map] at hmap
      exact hmap.symm
    rw [hok, hlength]
    rfl
  · rw [herror]
    rfl

theorem Call.perform_eq (call : Call) (r : Registry) :
    call.perform r = (call.load.run r, call.load.outcome) := by
  obtain ⟨hstores, houtcome⟩ := call.load_carriesOut
  rw [run_eq_of_stores hstores, houtcome]
  unfold perform
  split
  · rename_i failure hplan
    rw [hplan]
    rfl
  · rename_i pool names hplan
    rw [hplan, carryOut, register]
    split
    · rfl
    · have hcount := storeFiles_outcome pool names
      rw [storeInto_eq]
      dsimp only
      cases houtcome : (storeFiles pool names).outcome with
      | error failure => rfl
      | ok n =>
        rw [houtcome] at hcount
        exact Prod.ext rfl hcount

/-! ### Outcomes -/

/-- What a load has stored of the files in its order when it has an outcome. -/
def Explains (order : List String) (stores : List (String × Schema.File)) :
    Except Failure Nat → Prop
  | .ok n => 1 ≤ n ∧ stores.length = n ∧ stores.map (·.1) = order
  | .error (.tooDeep file _ _) => ∃ later, order = stores.map (·.1) ++ file :: later
  | .error (.unresolved ..) => False
  | .error (.unexpected _) => False
  | .error _ => stores = []

theorem explains_early {order : List String} {stores : List (String × Schema.File)}
    {failure : Failure} (h : Early failure) (hstores : stores = []) :
    Explains order stores (.error failure) := by
  cases h <;> exact hstores

theorem stopped_tooDeep {declared : String → Option Descriptor.File} {pool : Pool}
    {names : List String} (h : Sensible declared pool names)
    {name : String} (hname : name ∈ names) {failure : Failure} (hs : Stopped pool name failure) :
    ∃ entity, failure = .tooDeep name entity Snapshot.limit := by
  obtain ⟨new, hlink⟩ := h.linked
  cases hs with
  | missing reason hmissing =>
    -- The names of a sensible plan are those of files in the pool, so none is missing.
    obtain ⟨f, hf, hfname⟩ := List.mem_map.mp (h.present name hname)
    have hne := List.find?_eq_none.mp hmissing f hf
    simp [hfname] at hne
  | unshown f _ hfile hfailure =>
    have hf := List.mem_of_find?_eq_some hfile
    have hfname : f.name = name := by simpa using List.find?_some hfile
    obtain ⟨entity, rfl⟩ := Snapshot.linked_failure hlink hf hfailure
    exact ⟨entity, by rw [hfname]⟩

theorem register_explains {declared : String → Option Descriptor.File} {pool : Pool}
    {names : List String} (h : Sensible declared pool names) :
    Explains names (register pool names).stores (register pool names).outcome := by
  unfold register
  split
  · rfl
  · rename_i hne
    obtain ⟨_, hends⟩ := storeFiles_accounts pool names
    rcases hends with ⟨hok, hnames⟩ | ⟨name, later, failure, herror, hstopped, hnames⟩
    · rw [hok]
      refine ⟨?_, rfl, hnames⟩
      rw [← List.length_map, hnames]
      exact List.length_pos_iff.mpr (by simpa using hne)
    · have hname : name ∈ names := by
        rw [hnames]
        exact List.mem_append_right _ List.mem_cons_self
      obtain ⟨entity, rfl⟩ := stopped_tooDeep h hname hstopped
      rw [herror]
      exact ⟨later, hnames⟩

theorem mem_stores {pool : Pool} {names : List String} {s : String × Schema.File}
    (h : s ∈ (register pool names).stores) : ∃ f, pool.file? s.1 = some f ∧
      Snapshot.file pool.declarations f = .ok s.2 := by
  unfold register at h
  split at h
  · cases h
  · exact (storeFiles_accounts pool names).snapshots s h

/-- The stored files are a first part of the files in their order. -/
theorem stores_isFirstPart {order : List String} {stores : List (String × Schema.File)}
    {outcome : Except Failure Nat} (h : Explains order stores outcome) :
    (stores.map (·.1)).Sublist order := by
  cases outcome with
  | ok n =>
    rw [h.2.2]
  | error failure =>
    cases failure with
    | tooDeep file entity limit =>
      obtain ⟨later, rfl⟩ := h
      exact List.sublist_append_left _ _
    | unresolved file entity details => exact h.elim
    | unexpected reason => exact h.elim
    | unreadable path reason | unparsable path reason | undecodable reason | unlinkable reason
    | noFiles =>
      rw [show stores = [] from h]
      exact List.nil_sublist order

/-- A load with a failure that can be skipped has stored nothing. -/
theorem Call.stores_of_recoverable (call : Call) {failure : Failure}
    (houtcome : call.load.outcome = .error failure) (hrecoverable : failure.isRecoverable = true) :
    call.load.stores = [] := by
  obtain ⟨hstores, hsame⟩ := call.load_carriesOut
  have hprepared := call.plan_prepared
  rw [hsame] at houtcome
  rw [hstores]
  cases hplan : call.plan with
  | error early => rfl
  | ok planned =>
    obtain ⟨pool, names⟩ := planned
    rw [hplan] at hprepared houtcome
    have hexplains := register_explains hprepared
    rw [show (register pool names).outcome = .error failure from houtcome] at hexplains
    cases failure with
    | unreadable path reason | unparsable path reason | undecodable reason => exact hexplains
    | unlinkable reason | unresolved file entity details | tooDeep file entity limit | noFiles
    | unexpected reason => cases hrecoverable

/-- Each file is stored under its own name, and the stores are explained by the outcome. -/
theorem Call.stores_explained (call : Call) : (∀ s ∈ call.load.stores, s.2.name = s.1) ∧
    call.fileOrder.Nodup ∧ Explains call.fileOrder call.load.stores call.load.outcome := by
  obtain ⟨hstores, houtcome⟩ := call.load_carriesOut
  have hprepared := call.plan_prepared
  rw [hstores, houtcome, Call.fileOrder]
  -- An early failure stores nothing; else the stores are those of a sensible plan.
  cases hplan : call.plan with
  | error failure =>
    rw [hplan] at hprepared
    refine ⟨?_, List.nodup_nil, explains_early hprepared rfl⟩
    intro s hs
    cases hs
  | ok planned =>
    obtain ⟨pool, names⟩ := planned
    rw [hplan] at hprepared
    refine ⟨?_, hprepared.nodup, register_explains hprepared⟩
    intro s hs
    obtain ⟨f, hfile, hsnapshot⟩ := mem_stores hs
    have hname : f.name = s.1 := by simpa using List.find?_some hfile
    rw [(Snapshot.file_shown hsnapshot).1, hname]

/-- The stored names are a first part of distinct ones, so no store replaces another. -/
theorem Call.stores_nodup (call : Call) : (call.load.stores.map (·.1)).Nodup := by
  obtain ⟨_, horder, hexplains⟩ := call.stores_explained
  exact horder.sublist (stores_isFirstPart hexplains)

/-- What a call comes to on a registry is what its load stores, one file after the other, and how the
load ends; neither depends on the registry. A call that succeeds has stored all its files, each under
its own name, and only messages nested too deeply can stop it after the first file. -/
theorem call_effect (call : Call) :
    (∀ r, call.perform r = (call.load.run r, call.load.outcome)) ∧
    (∀ r name, (call.load.run r).get? name = (call.load.stores.lookup name).or (r.get? name)) ∧
    (call.load.stores.map (·.1)).Nodup ∧
    (∀ s ∈ call.load.stores, s.2.name = s.1) ∧
    Explains call.fileOrder call.load.stores call.load.outcome ∧
    ∀ failure, call.load.outcome = .error failure → failure.isRecoverable = true →
      ∀ r, call.load.run r = r := by
  obtain ⟨hown, _, hexplains⟩ := call.stores_explained
  have hnodup := call.stores_nodup
  refine ⟨call.perform_eq, ?_, hnodup, hown, hexplains, ?_⟩
  · intro r name
    exact Registry.get?_foldl_put _ hnodup r name
  · intro failure hfailure hrecoverable r
    have hnone := call.stores_of_recoverable hfailure hrecoverable
    rw [Load.run, hnone]
    rfl

end SchemaTree.Loader
