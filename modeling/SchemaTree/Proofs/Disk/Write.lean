import SchemaTree.Disk
import SchemaTree.Proofs.Sequence

/-!
# Writing a file

A file that has been written is what its path stands for, and nothing else on the disk has changed. The
place of the file held a file before, or nothing inside a directory; so no other place gains or loses its
node, and the walk to the file takes the same steps as before.
-/

namespace SchemaTree.Disk

/-! ### Nodes of a disk -/

theorem mem_of_node?_file {disk : Disk} {parts : List String} {contents : Bytes}
    (h : disk.node? parts = some (.file contents)) : (parts, .file contents) ∈ disk.nodes := by
  unfold node? at h
  split at h
  · rename_i node hlookup
    cases h
    exact mem_of_lookup hlookup
  · split at h
    · cases h
    · cases h

theorem node?_of_lookup_none {disk : Disk} {parts : List String}
    (h : disk.nodes.lookup parts = none) : disk.node? parts =
      if parts <+: disk.home ∨ ∃ p ∈ disk.nodes, parts <+: p.1 then some .directory else none := by
  simp only [node?, h, Bool.or_eq_true, List.any_eq_true, List.isPrefixOf_iff_prefix]

/-- There is something around the working directory, and where a node is or lies inside. -/
theorem node?_isSome {disk : Disk} {parts : List String} :
    (disk.node? parts).isSome ↔ parts <+: disk.home ∨ ∃ p ∈ disk.nodes, parts <+: p.1 := by
  cases hlookup : disk.nodes.lookup parts with
  | some node =>
    have hsome : (disk.node? parts).isSome := by
      rw [node?, hlookup]
      rfl
    exact iff_of_true hsome (.inr ⟨_, mem_of_lookup hlookup, List.prefix_rfl⟩)
  | none =>
    rw [node?_of_lookup_none hlookup]
    split
    · exact iff_of_true rfl ‹_›
    · exact iff_of_false nofun ‹_›

/-- What lies inside something has something around it. -/
theorem node?_isSome_around {disk : Disk} {outer parts : List String} (h : outer <+: parts)
    (hparts : (disk.node? parts).isSome) : (disk.node? outer).isSome := by
  rw [node?_isSome] at hparts ⊢
  rcases hparts with hhome | ⟨p, hp, hbegins⟩
  · exact .inl (h.trans hhome)
  · exact .inr ⟨p, hp, h.trans hbegins⟩

/-! ### Putting a file -/

/-- Where a file can be put: at the place of a file, or at an empty place in a directory. -/
inductive Vacant (disk : Disk) : List String → Prop
  | file {parts : List String} {contents : Bytes} (hfile : disk.node? parts = some (.file contents)) :
    Vacant disk parts
  | nothing {outer : List String} {name : String} (hdirectory : disk.node? outer = some .directory)
    (hnone : disk.node? (outer ++ [name]) = none) : Vacant disk (outer ++ [name])

theorem Vacant.not_directory {disk : Disk} {target : List String} (h : Vacant disk target) :
    disk.node? target ≠ some .directory := by
  cases h with
  | file hfile =>
    rw [hfile]
    nofun
  | nothing _ hnone =>
    rw [hnone]
    nofun

/-- Whatever is around a place where a file can be put is around a node of the disk, or around the working
directory. -/
theorem Vacant.around {disk : Disk} {target parts : List String} (h : Vacant disk target)
    (hbegins : parts <+: target) (hother : parts ≠ target) :
    parts <+: disk.home ∨ ∃ p ∈ disk.nodes, parts <+: p.1 := by
  cases h with
  | file hfile => exact .inr ⟨_, mem_of_node?_file hfile, hbegins⟩
  | nothing hdirectory _ =>
    have houter := (List.prefix_concat_iff.mp hbegins).resolve_left hother
    exact node?_isSome.mp (node?_isSome_around houter (by rw [hdirectory]; rfl))

section
variable {disk : Disk} {target : List String} {contents : Bytes}

theorem lookup_filter_other (parts : List String) : (disk.nodes.filter (·.1 != target)).lookup parts =
    if parts = target then none else disk.nodes.lookup parts := by
  generalize disk.nodes = nodes
  induction nodes with
  | nil => rw [List.filter_nil, List.lookup_nil, ite_self]
  | cons p nodes ih =>
    obtain ⟨key, node⟩ := p
    by_cases hkey : key = target
    · rw [List.filter_cons_of_neg (by simpa using hkey), ih, List.lookup_cons]
      by_cases hparts : parts = target
      · rw [if_pos hparts, if_pos hparts]
      · rw [if_neg hparts, if_neg hparts, beq_eq_false_iff_ne.mpr (hkey ▸ hparts)]
    · rw [List.filter_cons_of_pos (by simpa using hkey), List.lookup_cons, List.lookup_cons, ih]
      by_cases hparts : parts = key
      · have hne : parts ≠ target := fun h => hkey (hparts.symm.trans h)
        rw [beq_iff_eq.mpr hparts, if_neg hne, if_neg hne]
      · rw [beq_eq_false_iff_ne.mpr hparts]

theorem node?_put_same : (disk.put target (.file contents)).node? target = some (.file contents) := by
  rw [node?, put, List.lookup_append, lookup_filter_other, if_pos rfl, Option.none_or,
    List.lookup_cons_self]

theorem node?_put_other (h : Vacant disk target) {parts : List String} (hother : parts ≠ target) :
    (disk.put target (.file contents)).node? parts = disk.node? parts := by
  have hlookup : (disk.put target (.file contents)).nodes.lookup parts = disk.nodes.lookup parts := by
    rw [put, List.lookup_append, lookup_filter_other, if_neg hother, List.lookup_cons,
      beq_eq_false_iff_ne.mpr hother]
    exact Option.or_none
  have haround : (parts <+: disk.home ∨ ∃ p ∈ (disk.put target (.file contents)).nodes, parts <+: p.1) ↔
      (parts <+: disk.home ∨ ∃ p ∈ disk.nodes, parts <+: p.1) := by
    constructor
    · rintro (hhome | ⟨p, hp, hbegins⟩)
      · exact .inl hhome
      · rcases List.mem_append.mp hp with hp | hp
        · exact .inr ⟨p, (List.mem_filter.mp hp).1, hbegins⟩
        · rw [List.mem_singleton.mp hp] at hbegins
          exact h.around hbegins hother
    · rintro (hhome | ⟨p, hp, hbegins⟩)
      · exact .inl hhome
      · by_cases htarget : p.1 = target
        · exact .inr ⟨_, List.mem_append_right _ List.mem_cons_self, htarget ▸ hbegins⟩
        · exact .inr ⟨p, List.mem_append_left _ (List.mem_filter.mpr ⟨hp, by simpa using htarget⟩), hbegins⟩
  cases hnode : disk.nodes.lookup parts with
  | some node => simp only [node?, hlookup, hnode]
  | none =>
    have hsame : (disk.put target (.file contents)).home = disk.home := rfl
    simp only [node?_of_lookup_none, hlookup, hnode, hsame, haround]

theorem not_locked_put : (disk.put target (.file contents)).locked.contains target = false := by
  simp [put]

theorem locked_put_other {parts : List String} (hother : parts ≠ target) :
    (disk.put target (.file contents)).locked.contains parts = disk.locked.contains parts := by
  simp [put, hother]

/-! ### Walking to a place -/

theorem directory_of_step {place next : List String} {part : String}
    (h : disk.step place part = .ok next) : disk.node? place = some .directory := by
  unfold step at h
  split at h
  · cases h
  · cases h
  · assumption

/-- A step inside a directory that can be entered. -/
theorem step_directory {place : List String} (part : String) (hdirectory : disk.node? place = some .directory) :
    disk.step place part =
      if disk.locked.contains place then .error .denied
      else if part = "." then .ok place
      else if part = ".." then .ok place.dropLast
      else if maxComponent < part.utf8ByteSize then .error .nameTooLong
      else if (disk.node? (place ++ [part])).isSome then .ok (place ++ [part])
      else .error .notFound := by
  rw [step, hdirectory]

/-- A step leads to a place where there is something. -/
theorem step_present {place next : List String} {part : String} (h : disk.step place part = .ok next) :
    (disk.node? next).isSome := by
  have hdirectory := directory_of_step h
  have hplace : (disk.node? place).isSome := by rw [hdirectory]; rfl
  rw [step_directory part hdirectory] at h
  split at h
  · cases h
  · split at h
    · cases h
      exact hplace
    · split at h
      · cases h
        exact node?_isSome_around (List.dropLast_prefix place) hplace
      · split at h
        · cases h
        · split at h
          · cases h
            assumption
          · cases h

theorem walk_present {parts : List String} {place next : List String}
    (h : parts.foldlM disk.step place = .ok next) (hplace : (disk.node? place).isSome) :
    (disk.node? next).isSome := by
  induction parts generalizing place with
  | nil =>
    cases h
    exact hplace
  | cons part parts ih =>
    obtain ⟨middle, hstep, hrest⟩ := bind_eq_ok h
    exact ih hrest (step_present hstep)

theorem start_present (disk : Disk) (path : String) : (disk.node? (disk.start path)).isSome := by
  rw [node?_isSome, start]
  split
  · exact .inl (List.nil_prefix)
  · exact .inl List.prefix_rfl

/-- A step that can be made is also made after a file has been put where one can be. -/
theorem step_put (h : Vacant disk target) {place next : List String} {part : String}
    (hstep : disk.step place part = .ok next) :
    (disk.put target (.file contents)).step place part = .ok next := by
  have hdirectory := directory_of_step hstep
  have hother : place ≠ target := by
    rintro rfl
    exact h.not_directory hdirectory
  have hafter : (disk.put target (.file contents)).node? place = some .directory :=
    (node?_put_other h hother).trans hdirectory
  rw [step_directory part hdirectory] at hstep
  rw [step_directory part hafter, locked_put_other hother]
  by_cases htarget : place ++ [part] = target
  -- A step that reached the target before reaches the file there now.
  · have hthere : (disk.put target (.file contents)).node? (place ++ [part]) = some (.file contents) := by
      rw [htarget, node?_put_same]
    rw [hthere]
    simp only [Option.isSome_some, if_true]
    split_ifs at hstep ⊢ <;> exact hstep
  · rw [node?_put_other h htarget]
    exact hstep

theorem walk_put (h : Vacant disk target) {parts : List String} {place next : List String}
    (hwalk : parts.foldlM disk.step place = .ok next) :
    parts.foldlM (disk.put target (.file contents)).step place = .ok next := by
  induction parts generalizing place with
  | nil => exact hwalk
  | cons part parts ih =>
    obtain ⟨middle, hstep, hrest⟩ := bind_eq_ok hwalk
    rw [List.foldlM_cons, step_put h hstep]
    exact ih hrest

end

theorem locate_put {disk : Disk} {target : List String} {contents : Bytes} (h : Vacant disk target)
    {path : String} {place : List String} (hlocate : disk.locate path = .ok place) :
    (disk.put target (.file contents)).locate path = .ok place := by
  unfold locate at hlocate ⊢
  split_ifs at hlocate ⊢
  exact walk_put h hlocate

theorem locate_present {disk : Disk} {path : String} {place : List String}
    (h : disk.locate path = .ok place) : (disk.node? place).isSome := by
  unfold locate at h
  split_ifs at h
  exact walk_present h (disk.start_present path)

/-! ### Reading what has been written -/

theorem look_eq_file {disk : Disk} {path : String} {place : List String} {contents : Bytes} :
    disk.look path = .ok (place, .file contents) ↔ disk.locate path = .ok place ∧
      disk.node? place = some (.file contents) ∧ (Path.ofText path).meansDirectory = false := by
  unfold look
  cases disk.locate path with
  | error fault => exact ⟨nofun, nofun⟩
  | ok reached =>
    constructor
    · intro h
      dsimp only [bind, Except.bind] at h
      split at h
      · cases h
      · cases h
      · rename_i hnode
        split at h
        · cases h
        · rename_i hmeans
          cases h
          exact ⟨rfl, hnode, by simpa using hmeans⟩
    · rintro ⟨hplace, hnode, hmeans⟩
      cases hplace
      dsimp only [bind, Except.bind]
      rw [hnode, hmeans]
      rfl

theorem read_of_look {disk : Disk} {path : String} {place : List String} {contents : Bytes}
    (h : disk.look path = .ok (place, .file contents)) (hopen : disk.locked.contains place = false) :
    disk.read path = .ok contents := by
  rw [read, h]
  dsimp only [bind, Except.bind]
  rw [hopen]
  rfl

/-- If nothing is found at a path, it is the walk that fails, as every place it reaches has something. -/
theorem locate_of_missing {disk : Disk} {path : String} (hlook : disk.look path = .error .notFound) :
    disk.locate path = .error .notFound := by
  unfold look at hlook
  cases hlocate : disk.locate path with
  | error fault =>
    rw [hlocate] at hlook
    cases hlook
    rfl
  | ok place =>
    have hplace := locate_present hlocate
    rw [hlocate] at hlook
    dsimp only [bind, Except.bind] at hlook
    split at hlook
    · rename_i hnone
      rw [hnone] at hplace
      cases hplace
    · cases hlook
    · split at hlook
      · cases hlook
      · cases hlook

/-- A step fails to find a name only if there is nothing of that name in a directory that can be
entered. -/
theorem missing_of_step {disk : Disk} {place : List String} {name : String}
    (hpresent : (disk.node? place).isSome) (h : disk.step place name = .error .notFound) :
    disk.node? place = some .directory ∧ disk.locked.contains place = false ∧ name ≠ "." ∧ name ≠ ".." ∧
      ¬maxComponent < name.utf8ByteSize ∧ disk.node? (place ++ [name]) = none := by
  have hdirectory : disk.node? place = some .directory := by
    unfold step at h
    split at h
    · rename_i hnone
      rw [hnone] at hpresent
      cases hpresent
    · cases h
    · assumption
  rw [step_directory name hdirectory] at h
  split_ifs at h with hlocked hhere houter hlong hsome
  · cases h
  · cases h
  · exact ⟨hdirectory, eq_false_of_ne_true hlocked, hhere, houter, hlong,
      Option.not_isSome_iff_eq_none.mp hsome⟩

/-- If there is nothing at a path but a directory around it, a file can be put there, and the path then
leads to it. -/
theorem vacant_of_missing {disk : Disk} {path : String} (hlook : disk.look path = .error .notFound)
    {outer : List String} {name : String}
    (hwalk : (Path.steps path).dropLast.foldlM disk.step (disk.start path) = .ok outer)
    (hlast : (Path.steps path).getLast? = some name) :
    Vacant disk (outer ++ [name]) ∧ ∀ contents,
      (disk.put (outer ++ [name]) (.file contents)).locate path = .ok (outer ++ [name]) := by
  have hmissing := locate_of_missing hlook
  have hsteps : (Path.steps path).dropLast ++ [name] = Path.steps path :=
    List.dropLast_append_getLast? name hlast
  have hne : path ≠ "" := by
    rintro rfl
    cases hlast
  have hnul : ¬path.toList.contains '\x00' = true := by
    intro hnul
    rw [locate, if_pos hnul] at hmissing
    cases hmissing
  have hfits : ¬maxPath < path.utf8ByteSize := by
    intro hlong
    rw [locate, if_neg hnul, if_neg hne, if_pos hlong] at hmissing
    cases hmissing
  have hlocate (d : Disk)
      (hd : (Path.steps path).dropLast.foldlM d.step (d.start path) = .ok outer) :
      d.locate path = d.step outer name := by
    rw [locate, if_neg hnul, if_neg hne, if_neg hfits, ← hsteps, List.foldlM_append, hd]
    exact bind_pure (d.step outer name)
  have hpresent : (disk.node? outer).isSome := walk_present hwalk (disk.start_present path)
  rw [hlocate disk hwalk] at hmissing
  obtain ⟨hdirectory, hlocked, hhere, houter, hshort, hnone⟩ := missing_of_step hpresent hmissing
  have hvacant : Vacant disk (outer ++ [name]) := .nothing hdirectory hnone
  refine ⟨hvacant, fun contents => ?_⟩
  have hother : outer ≠ outer ++ [name] := by simp
  have hafter : (disk.put (outer ++ [name]) (.file contents)).node? outer = some .directory :=
    (node?_put_other hvacant hother).trans hdirectory
  rw [hlocate _ (walk_put hvacant hwalk), step_directory name hafter, locked_put_other hother, hlocked,
    if_neg hhere, if_neg houter, if_neg hshort, node?_put_same]
  rfl

/-- A file that has been written is read back, and every other place of the disk is as it was. -/
structure Wrote (disk after : Disk) (path : String) (contents : Bytes) (target : List String) : Prop where
  place : after.locate path = .ok target
  read : after.read path = .ok contents
  others : ∀ parts, parts ≠ target → after.node? parts = disk.node? parts
  locks : ∀ parts, parts ≠ target → after.locked.contains parts = disk.locked.contains parts
  home : after.home = disk.home

theorem wrote_put {disk : Disk} {path : String} {contents : Bytes} {target : List String}
    (h : Vacant disk target) (hmeans : (Path.ofText path).meansDirectory = false)
    (hplace : (disk.put target (.file contents)).locate path = .ok target) :
    Wrote disk (disk.put target (.file contents)) path contents target := by
  have hlook := look_eq_file.mpr ⟨hplace, node?_put_same, hmeans⟩
  exact ⟨hplace, read_of_look hlook not_locked_put, fun parts hother => node?_put_other h hother,
    fun parts hother => locked_put_other hother, rfl⟩

theorem write_wrote {disk after : Disk} {path : String} {contents : Bytes}
    (h : disk.write path contents = .ok after) : ∃ target, Wrote disk after path contents target := by
  unfold write at h
  split at h
  · cases h
  · rename_i place old hlook
    split_ifs at h
    cases h
    obtain ⟨hlocate, hnode, hmeans⟩ := look_eq_file.mp hlook
    have hvacant : Vacant disk place := .file hnode
    exact ⟨place, wrote_put hvacant hmeans (locate_put hvacant hlocate)⟩
  · rename_i hlook
    obtain ⟨outer, hwalk, h⟩ := bind_eq_ok h
    split_ifs at h with hmeans
    split at h
    · rename_i name hlast
      cases h
      obtain ⟨hvacant, hplace⟩ := vacant_of_missing hlook hwalk hlast
      exact ⟨_, wrote_put hvacant (eq_false_of_ne_true hmeans) (hplace contents)⟩
    · cases h
  · cases h

end SchemaTree.Disk
