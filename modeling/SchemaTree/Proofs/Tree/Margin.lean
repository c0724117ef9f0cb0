import SchemaTree.Proofs.Tree.Item

/-!
# Margins in a text tree

The indent goes into the margins of a text tree and nowhere else. A line is as many copies of the indent as
its depth says, and a rest that no indent changes. Depths and rests come from a recursion on the messages of
a file, and the depth of a line is the one that the walk gives to the callback that adds the line.
-/

namespace SchemaTree

open Schema (Enum File Message Service)

/-- The depth that a walk gives to a callback, and 0 if it gives none. -/
def Event.depth : Event → Nat
  | .beginFile _ | .endFile _ | .beginSection _ => 0
  | .beginMessage _ depth | .field _ depth | .endMessage _ depth | .enum _ depth | .service _ depth => depth

namespace Tree

/-! ### Places in concatenated lists -/

/-- A place in a concatenation lies in one of the lists. -/
theorem exists_of_lt_flatMap {f : α → List β} {xs : List α} {i : Nat} (h : i < (xs.flatMap f).length) :
    ∃ before x after, xs = before ++ x :: after ∧ (before.flatMap f).length ≤ i ∧
      i < ((before ++ [x]).flatMap f).length := by
  induction xs generalizing i with
  | nil => exact absurd h (Nat.not_lt_zero i)
  | cons first rest ih =>
    by_cases hfirst : i < (f first).length
    · refine ⟨[], first, rest, rfl, Nat.zero_le i, ?_⟩
      simpa using hfirst
    · rw [List.flatMap_cons, List.length_append] at h
      obtain ⟨before, x, after, hrest, hfrom, hto⟩ := ih (i := i - (f first).length) (by omega)
      refine ⟨first :: before, x, after, by rw [hrest, List.cons_append], ?_, ?_⟩
      · rw [List.flatMap_cons, List.length_append]
        omega
      · rw [List.cons_append, List.flatMap_cons, List.length_append]
        omega

/-- What stands at a place of a concatenation is an item of the list in which the place lies. -/
theorem exists_getElem?_flatMap {f : α → List β} {before : List α} {x : α} {i : Nat}
    (hfrom : (before.flatMap f).length ≤ i) (hto : i < ((before ++ [x]).flatMap f).length)
    (after : List α) : ∃ y ∈ f x, ((before ++ x :: after).flatMap f)[i]? = some y := by
  rw [List.flatMap_append, List.flatMap_singleton, List.length_append] at hto
  have hinside : i - (before.flatMap f).length < (f x).length := by omega
  refine ⟨(f x)[i - (before.flatMap f).length], List.getElem_mem hinside, ?_⟩
  rw [List.flatMap_append, List.flatMap_cons, List.getElem?_append_right hfrom,
    List.getElem?_append_left hinside, List.getElem?_eq_getElem hinside]

/-! ### Callbacks that add a line -/

/-- The lines that the lister has after some events. -/
def listed (indent : String) (events : List Event) : Array String := events.foldl (lister indent).step #[]

/-- Whether the line at a place of a text tree is one of those that a callback of the walk adds. -/
def Adds (indent : String) (registry : Registry) (e : Event) (place : Nat) : Prop :=
  ∃ before after, registry.events = before ++ e :: after ∧
    (listed indent before).size ≤ place ∧ place < (listed indent (before ++ [e])).size

theorem size_listed (indent : String) (events : List Event) :
    (listed indent events).size = (events.flatMap eventItems).length := by
  rw [listed, ← Array.length_toList, lister_foldl, List.length_append, List.length_map]
  exact Nat.zero_add _

theorem block_depth (depth : Nat) (word name : String) (members : List Item) :
    ∀ p ∈ blockItems depth word name members, p.1 = depth := by
  simp only [blockItems, List.forall_mem_append, List.forall_mem_cons, List.forall_mem_map,
    List.not_mem_nil, false_imp_iff, implies_true, and_true]

theorem header_depth (name dialect package : String) (imports : List String) :
    ∀ p ∈ headerItems name dialect package imports, p.1 = 0 := by
  rw [headerItems, List.forall_mem_append]
  refine ⟨by simp, ?_⟩
  split
  · exact List.forall_mem_nil _
  · simp only [List.forall_mem_cons, List.forall_mem_map, implies_true, and_true]

/-- All lines that a callback adds have its depth. -/
theorem event_depth (e : Event) : ∀ p ∈ eventItems e, p.1 = e.depth := by
  cases e with
  | beginFile f => exact header_depth f.name f.dialect.token f.package f.imports
  | endFile f => exact List.forall_mem_nil _
  | beginSection title => exact List.forall_mem_singleton.mpr rfl
  | beginMessage m depth => exact List.forall_mem_singleton.mpr rfl
  | field f depth => exact List.forall_mem_singleton.mpr rfl
  | endMessage m depth => exact List.forall_mem_singleton.mpr rfl
  | enum e depth => exact block_depth depth "enum" e.name _
  | service s depth => exact block_depth depth "service" s.name _

theorem exists_adds {indent : String} {registry : Registry} {place : Nat}
    (h : place < (registry.events.flatMap eventItems).length) : ∃ e, Adds indent registry e place := by
  obtain ⟨before, e, after, hevents, hfrom, hto⟩ := exists_of_lt_flatMap h
  rw [← size_listed indent] at hfrom hto
  exact ⟨e, before, after, hevents, hfrom, hto⟩

/-- The line at a place has the depth of the callback that adds it. -/
theorem Adds.depth {indent : String} {registry : Registry} {e : Event} {place : Nat}
    (h : Adds indent registry e place) :
    ((registry.events.flatMap eventItems).map (·.1))[place]? = some e.depth := by
  obtain ⟨before, after, hevents, hfrom, hto⟩ := h
  rw [size_listed] at hfrom hto
  obtain ⟨p, hp, hplace⟩ := exists_getElem?_flatMap hfrom hto after
  rw [hevents, List.getElem?_map, hplace, Option.map_some, event_depth e p hp]

/-! ### Lines by recursion on messages -/

/-- An item as the rest of a line after its margin, at its depth. -/
def row (p : Nat × Item) : Nat × String := (p.1, p.2.text)

def blockRows (depth : Nat) (word name : String) (members : List String) : List (Nat × String) :=
  (depth, word ++ " " ++ name ++ " \x7b") :: members.map (depth, ·) ++ [(depth, "\x7d")]

def enumRows (depth : Nat) (e : Enum) : List (Nat × String) :=
  blockRows depth "enum" e.name (e.values.map valueLine)

def serviceRows (depth : Nat) (s : Service) : List (Nat × String) :=
  blockRows depth "service" s.name (s.methods.map methodLine)

mutual

/-- The lines of a message without their margins, each at its depth. Those of its fields have the depth of
the two that open and close it, and what is nested in it is one deeper. -/
def messageRows (depth : Nat) : Message → List (Nat × String)
  | ⟨name, _, fields, messages, enums⟩ =>
    (depth, "message " ++ name ++ " \x7b") :: (fields.map fun f => (depth, fieldLine f)) ++
      messagesRows (depth + 1) messages ++ enums.flatMap (enumRows (depth + 1)) ++ [(depth, "\x7d")]

def messagesRows (depth : Nat) : List Message → List (Nat × String)
  | [] => []
  | m :: ms => messageRows depth m ++ messagesRows depth ms

end

def sectionRows (title : Section) (members : List (Nat × String)) : List (Nat × String) :=
  if members.isEmpty then [] else (0, title.title ++ ":") :: members

/-- The lines of a file without their margins, each at its depth. The header and the titles of the sections
have none. -/
def fileRows (f : File) : List (Nat × String) :=
  (header f).map (0, ·) ++ sectionRows .messages (messagesRows 1 f.messages) ++
    sectionRows .enums (f.enums.flatMap (enumRows 1)) ++
    sectionRows .services (f.services.flatMap (serviceRows 1))

theorem map_row_block (depth : Nat) (word name : String) (members : List Item) :
    (blockItems depth word name members).map row = blockRows depth word name (members.map Item.text) := by
  simp only [blockItems, blockRows, List.map_append, List.map_cons, List.map_map, Function.comp_def,
    List.map_nil]
  rfl

theorem map_row_enum (depth : Nat) (e : Enum) : (enumItems depth e).map row = enumRows depth e := by
  rw [enumItems, map_row_block, List.map_map]
  rfl

theorem map_row_service (depth : Nat) (s : Service) :
    (serviceItems depth s).map row = serviceRows depth s := by
  rw [serviceItems, map_row_block, List.map_map]
  rfl

mutual

theorem map_row_message : ∀ (depth : Nat) (m : Message),
    ((messageEvents depth m).flatMap eventItems).map row = messageRows depth m
  | depth, ⟨name, fullName, fields, messages, enums⟩ => by
    have hmessages := map_row_messages (depth + 1) messages
    simp only [messageEvents, List.cons_append, List.flatMap_cons, List.flatMap_append, List.flatMap_map,
      List.flatMap_nil, List.nil_append, List.append_nil, eventItems, ← List.map_eq_flatMap, List.map_cons,
      List.map_append, List.map_map, Function.comp_def, List.map_flatMap, List.map_nil, hmessages,
      map_row_enum, row, text_field, text_message, messageRows]
    rfl

theorem map_row_messages : ∀ (depth : Nat) (ms : List Message),
    ((messagesEvents depth ms).flatMap eventItems).map row = messagesRows depth ms
  | _, [] => rfl
  | depth, m :: ms => by
    rw [messagesEvents, List.flatMap_append, List.map_append, map_row_message depth m,
      map_row_messages depth ms, messagesRows]

end

theorem map_row_header (f : File) :
    (headerItems f.name f.dialect.token f.package f.imports).map row = (header f).map (0, ·) := by
  -- Items at depth 0 have their text as the whole line, with any indent.
  rw [← map_line_header "" f, List.map_map]
  refine List.map_congr_left fun p hp => ?_
  obtain ⟨depth, item⟩ := p
  obtain rfl : depth = 0 := header_depth _ _ _ _ _ hp
  rw [Function.comp_apply, line_zero, row]

theorem map_row_section (title : Section) (members : List (Nat × Item)) :
    (sectionItems title members).map row = sectionRows title (members.map row) := by
  rw [sectionItems, sectionRows, List.isEmpty_map]
  split
  · rfl
  · rfl

theorem map_row_file (f : File) : ((fileEvents f).flatMap eventItems).map row = fileRows f := by
  have hmessages := map_row_messages 1 f.messages
  rw [messagesEvents_items] at hmessages
  have henums : (f.enums.flatMap (enumItems 1)).map row = f.enums.flatMap (enumRows 1) := by
    simp only [List.map_flatMap, map_row_enum]
  have hservices : (f.services.flatMap (serviceItems 1)).map row = f.services.flatMap (serviceRows 1) := by
    simp only [List.map_flatMap, map_row_service]
  rw [fileEvents_items]
  simp only [fileItems, Outline.File.of, Outline.File.unnumbered, List.map_append, map_row_header,
    map_row_section, hmessages, henums, hservices, fileRows]

theorem map_row_registry (registry : Registry) :
    (registry.events.flatMap eventItems).map row = registry.files.flatMap fileRows := by
  rw [Registry.events, List.flatMap_assoc, List.map_flatMap]
  simp only [map_row_file]

/-- Whatever the indent is, the lines of a text tree are the same but for their margins, which are copies
of the indent in the number of a depth. The depth of a line is the one that the walk gives to the callback
that adds the line. -/
theorem lines_indented (registry : Registry) :
    let base := (registry.files.flatMap fileRows).map (·.2)
    let depths := (registry.files.flatMap fileRows).map (·.1)
    base.length = depths.length ∧
    (∀ indent, lines indent registry =
      List.zipWith (fun depth rest => String.join (List.replicate depth indent) ++ rest) depths base) ∧
    ∀ indent place, (place < depths.length → ∃ e, Adds indent registry e place) ∧
      ∀ e, Adds indent registry e place → depths[place]? = some e.depth := by
  intro base depths
  have hbase : base = (registry.events.flatMap eventItems).map (·.2.text) := by
    simp only [base, ← map_row_registry, List.map_map]
    rfl
  have hdepths : depths = (registry.events.flatMap eventItems).map (·.1) := by
    simp only [depths, ← map_row_registry, List.map_map]
    rfl
  refine ⟨by rw [hbase, hdepths, List.length_map, List.length_map], ?_, ?_⟩
  · intro indent
    rw [hbase, hdepths, List.zipWith_map, List.zipWith_self, lines_eq_events]
    rfl
  · intro indent place
    rw [hdepths, List.length_map]
    exact ⟨exists_adds, fun e hadds => hadds.depth⟩

end Tree
end SchemaTree
