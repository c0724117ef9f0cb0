import SchemaTree.Proofs.Tree.Reader

/-!
# The text tree determines the outline

The items that are read from the lines of a text tree are put together again, a message from its
opening to its closing line around whatever is nested in it. What comes of it is the outline without
the numbers of its fields.
-/

namespace SchemaTree.Tree
open Outline (Builder File Message)
open Schema (Enum EnumValue Method Service)

/-! ### Putting items together -/

/-- An enum or a service between its opening and its closing line. -/
inductive Block
  | enum (enum : Enum)
  | service (service : Service)

/-- Outlines that are being put together; the open messages are on the stack of the builder. -/
structure Draft where
  builder : Builder := {}
  block : Option Block := none

namespace Draft

def onFile (d : Draft) (change : File → File) : Draft :=
  { d with builder := { d.builder with current := d.builder.current.map change } }

def onMessage (d : Draft) (change : Message → Message) : Draft :=
  { d with builder := { d.builder with stack := d.builder.stack.modifyHead change } }

def openBlock (d : Draft) (word name : String) : Draft :=
  if word = "message" then
    { d with builder := { d.builder with stack := ⟨name, [], [], []⟩ :: d.builder.stack } }
  else if word = "enum" then { d with block := some (.enum ⟨name, []⟩) }
  else { d with block := some (.service ⟨name, []⟩) }

def closeBlock (d : Draft) : Draft :=
  match d.block with
  | none => { d with builder := d.builder.endMessage }
  | some (.enum e) => ⟨d.builder.putEnums [e], none⟩
  | some (.service s) => ⟨d.builder.putServices [s], none⟩

def take (d : Draft) : Item → Draft
  | .gap => { d with builder := { d.builder.endFile with current := some ⟨"", "", "", [], [], [], []⟩ } }
  | .title name => d.onFile fun f => { f with name }
  | .label word text =>
    if word = "Syntax" then d.onFile fun f => { f with dialect := text }
    else if word = "Package" then d.onFile fun f => { f with package := text }
    else d
  | .heading _ => d
  | .imported name => d.onFile fun f => { f with imports := f.imports ++ [name] }
  | .block word name => d.openBlock word name
  | .field f => d.onMessage fun m => { m with fields := m.fields ++ [f] }
  | .value v =>
    match d.block with
    | some (.enum e) => { d with block := some (.enum { e with values := e.values ++ [v] }) }
    | _ => d
  | .method m =>
    match d.block with
    | some (.service s) => { d with block := some (.service { s with methods := s.methods ++ [m] }) }
    | _ => d
  | .close => d.closeBlock

/-- Takes items in one after the other, whatever their depth. -/
def takeAll (d : Draft) (items : List (Nat × Item)) : Draft := items.foldl (fun d p => d.take p.2) d

theorem takeAll_append (d : Draft) (xs ys : List (Nat × Item)) :
    d.takeAll (xs ++ ys) = (d.takeAll xs).takeAll ys := List.foldl_append

theorem takeAll_cons (d : Draft) (p : Nat × Item) (items : List (Nat × Item)) :
    d.takeAll (p :: items) = (d.take p.2).takeAll items := rfl

/-- A block is what its members make of the opened one, closed. -/
theorem takeAll_block (d : Draft) (depth : Nat) (word name : String) (members : List (Nat × Item)) :
    d.takeAll ((depth, .block word name) :: (members ++ [(depth, .close)])) =
      ((d.openBlock word name).takeAll members).closeBlock := by
  rw [takeAll_cons, takeAll_append]
  rfl

theorem openBlock_message (d : Draft) (name : String) : d.openBlock "message" name =
    { d with builder := { d.builder with stack := ⟨name, [], [], []⟩ :: d.builder.stack } } := by
  rw [openBlock, if_pos rfl]

theorem openBlock_enum (d : Draft) (name : String) :
    d.openBlock "enum" name = { d with block := some (.enum ⟨name, []⟩) } := by
  rw [openBlock, if_neg (by decide), if_pos rfl]

theorem openBlock_service (d : Draft) (name : String) :
    d.openBlock "service" name = { d with block := some (.service ⟨name, []⟩) } := by
  rw [openBlock, if_neg (by decide), if_neg (by decide)]

/-- Items that are taken in group by group, each group adding its element to a list that the draft
holds. -/
theorem takeAll_flatMap (items : α → List (Nat × Item)) (draft : List α → Draft)
    (h : ∀ xs x, (draft xs).takeAll (items x) = draft (xs ++ [x])) (xs more : List α) :
    (draft xs).takeAll (more.flatMap items) = draft (xs ++ more) := by
  induction more generalizing xs with
  | nil =>
    rw [List.append_nil]
    rfl
  | cons x more ih =>
    rw [List.flatMap_cons, takeAll_append, h, ih, List.append_assoc]
    rfl

theorem takeAll_map (item : α → Nat × Item) (draft : List α → Draft)
    (h : ∀ xs x, (draft xs).take (item x).2 = draft (xs ++ [x])) (xs more : List α) :
    (draft xs).takeAll (more.map item) = draft (xs ++ more) := by
  rw [List.map_eq_flatMap]
  exact takeAll_flatMap (fun x => [item x]) draft h xs more

/-! ### Enums and services -/

theorem takeAll_enum (b : Builder) (depth : Nat) (e : Enum) :
    (⟨b, none⟩ : Draft).takeAll (enumItems depth e) = ⟨b.putEnums [e], none⟩ := by
  have hvalues := takeAll_map (fun v => (depth, .value v))
    (fun vs => ⟨b, some (.enum ⟨e.name, vs⟩)⟩) (fun _ _ => rfl) [] e.values
  rw [enumItems, blockItems, List.cons_append, takeAll_block, openBlock_enum, List.map_map]
  exact congrArg closeBlock hvalues

theorem takeAll_enums (b : Builder) (depth : Nat) (enums : List Enum) :
    (⟨b, none⟩ : Draft).takeAll (enums.flatMap (enumItems depth)) = ⟨b.putEnums enums, none⟩ := by
  have hstep (xs : List Enum) (e : Enum) : (⟨b.putEnums xs, none⟩ : Draft).takeAll
      (enumItems depth e) = ⟨b.putEnums (xs ++ [e]), none⟩ := by
    rw [takeAll_enum, Builder.putEnums_putEnums]
  have hall := takeAll_flatMap (enumItems depth) (fun es => ⟨b.putEnums es, none⟩) hstep [] enums
  rwa [Builder.putEnums_nil] at hall

theorem takeAll_service (b : Builder) (depth : Nat) (s : Service) :
    (⟨b, none⟩ : Draft).takeAll (serviceItems depth s) = ⟨b.putServices [s], none⟩ := by
  have hmethods := takeAll_map (fun m => (depth, .method m))
    (fun ms => ⟨b, some (.service ⟨s.name, ms⟩)⟩) (fun _ _ => rfl) [] s.methods
  rw [serviceItems, blockItems, List.cons_append, takeAll_block, openBlock_service, List.map_map]
  exact congrArg closeBlock hmethods

theorem takeAll_services (finished : List File) (f : File) (services : List Service) :
    (⟨⟨finished, some { f with services := [] }, []⟩, none⟩ : Draft).takeAll
        (services.flatMap (serviceItems 1)) =
      ⟨⟨finished, some { f with services }, []⟩, none⟩ := by
  refine takeAll_flatMap (serviceItems 1)
    (fun xs => ⟨⟨finished, some { f with services := xs }, []⟩, none⟩) ?_ [] services
  intro xs s
  exact takeAll_service _ 1 s

/-! ### Messages -/

theorem takeAll_fields (finished : List File) (current : Option File) (rest : List Message)
    (depth : Nat) (name : String) (fields : List Outline.Field) :
    (⟨⟨finished, current, ⟨name, [], [], []⟩ :: rest⟩, none⟩ : Draft).takeAll
        (fields.map fun f => (depth, .field f)) =
      ⟨⟨finished, current, ⟨name, fields, [], []⟩ :: rest⟩, none⟩ :=
  takeAll_map _ (fun xs => ⟨⟨finished, current, ⟨name, xs, [], []⟩ :: rest⟩, none⟩)
    (fun _ _ => rfl) [] fields

mutual

theorem takeAll_message : ∀ (b : Builder) (depth : Nat) (m : Message),
    (⟨b, none⟩ : Draft).takeAll (messageItems depth m) = ⟨b.putMessages [m], none⟩
  | ⟨finished, current, stack⟩, depth, ⟨name, fields, messages, enums⟩ => by
    -- The opened message on the stack gets its members, and the closing line attaches it.
    have hfields := takeAll_fields finished current stack depth name fields
    have hmessages : (⟨⟨finished, current, ⟨name, fields, [], []⟩ :: stack⟩, none⟩ : Draft).takeAll
        (messagesItems (depth + 1) messages) =
          ⟨⟨finished, current, ⟨name, fields, messages, []⟩ :: stack⟩, none⟩ :=
      takeAll_messages _ _ _
    have henums : (⟨⟨finished, current, ⟨name, fields, messages, []⟩ :: stack⟩, none⟩ : Draft).takeAll
        (enums.flatMap (enumItems (depth + 1))) =
          ⟨⟨finished, current, ⟨name, fields, messages, enums⟩ :: stack⟩, none⟩ :=
      takeAll_enums _ _ _
    simp only [messageItems, List.cons_append]
    rw [takeAll_block, openBlock_message, takeAll_append, takeAll_append, hfields, hmessages,
      henums]
    rfl

theorem takeAll_messages : ∀ (b : Builder) (depth : Nat) (ms : List Message),
    (⟨b, none⟩ : Draft).takeAll (messagesItems depth ms) = ⟨b.putMessages ms, none⟩
  | b, _, [] => by
    rw [Builder.putMessages_nil]
    rfl
  | b, depth, m :: ms => by
    rw [messagesItems, takeAll_append, takeAll_message b depth m, takeAll_messages _ depth ms,
      Builder.putMessages_putMessages]
    rfl

end

/-! ### Files -/

theorem endFile_eq (finished : List File) (current : Option File) (stack : List Message) :
    (⟨finished, current, stack⟩ : Builder).endFile = ⟨finished ++ current.toList, none, stack⟩ := by
  cases current with
  | none =>
    rw [Option.toList_none, List.append_nil]
    rfl
  | some f => rfl

theorem takeAll_imports (finished : List File) (name dialect package : String)
    (imports : List String) :
    (⟨⟨finished, some ⟨name, dialect, package, [], [], [], []⟩, []⟩, none⟩ : Draft).takeAll
        (imports.map fun i => (0, .imported i)) =
      ⟨⟨finished, some ⟨name, dialect, package, imports, [], [], []⟩, []⟩, none⟩ :=
  takeAll_map _
    (fun xs => ⟨⟨finished, some ⟨name, dialect, package, xs, [], [], []⟩, []⟩, none⟩)
    (fun _ _ => rfl) [] imports

/-- The header of a file finishes the file before it and opens one without members. -/
theorem takeAll_header (finished : List File) (current : Option File)
    (name dialect package : String) (imports : List String) :
    (⟨⟨finished, current, []⟩, none⟩ : Draft).takeAll (headerItems name dialect package imports) =
      ⟨⟨finished ++ current.toList, some ⟨name, dialect, package, imports, [], [], []⟩, []⟩, none⟩ := by
  have hopen : (⟨⟨finished, current, []⟩, none⟩ : Draft).takeAll
      [(0, .gap), (0, .title name), (0, .label "Syntax" dialect), (0, .label "Package" package),
        (0, .label "Path" name)] =
      ⟨⟨finished ++ current.toList, some ⟨name, dialect, package, [], [], [], []⟩, []⟩, none⟩ := by
    simp only [takeAll_cons, take, endFile_eq]
    rfl
  rw [headerItems, takeAll_append, hopen]
  cases imports with
  | nil => rfl
  | cons i imports => exact takeAll_imports _ name dialect package (i :: imports)

theorem takeAll_section (d : Draft) (title : Section) (members : List (Nat × Item)) :
    d.takeAll (sectionItems title members) = d.takeAll members := by
  cases members with
  | nil => rfl
  | cons p members => rfl

theorem takeAll_file (finished : List File) (current : Option File) (f : File) :
    (⟨⟨finished, current, []⟩, none⟩ : Draft).takeAll (fileItems f) =
      ⟨⟨finished ++ current.toList, some f, []⟩, none⟩ := by
  simp only [fileItems, takeAll_append, takeAll_section, takeAll_header, takeAll_messages,
    takeAll_enums]
  exact takeAll_services _ f _

theorem takeAll_files (finished : List File) (current : Option File) (files : List File) :
    ((⟨⟨finished, current, []⟩, none⟩ : Draft).takeAll (files.flatMap fileItems)).builder.endFile.finished =
      finished ++ current.toList ++ files := by
  induction files generalizing finished current with
  | nil =>
    show (⟨finished, current, []⟩ : Builder).endFile.finished = _
    rw [endFile_eq, List.append_nil]
  | cons f files ih =>
    rw [List.flatMap_cons, takeAll_append, takeAll_file, ih, Option.toList_some,
      List.append_assoc _ [f]]
    rfl

end Draft

/-- Reads the outlines of files from the lines of a text tree. -/
def readTree? (lines : List String) : Option (List File) :=
  (lines.mapM readLine?).map fun items =>
    (items.foldl Draft.take {}).builder.endFile.finished

/-! ### Names -/

/-- The names of the element of an event, with those of enum values and of the messages of methods. -/
def eventNames : Event → List String
  | .beginMessage m _ => [m.name]
  | .field f _ => [f.name]
  | .enum e _ => e.name :: e.values.map (·.name)
  | .service s _ => s.name :: s.methods.flatMap fun m => [m.name, m.input, m.output]
  | _ => []

/-- The names of all messages, fields, enums, values, services and methods of a registry. -/
def shownNames (registry : Registry) : List String := registry.events.flatMap eventNames

theorem isWord_token (kind : Schema.Kind) : IsWord kind.token := by
  cases kind <;> decide

theorem plain_header (f : Schema.File) :
    ∀ p ∈ headerItems f.name f.dialect.token f.package f.imports, p.2.Plain := by
  have hsyntax : IsWord "Syntax" := by decide
  have hpackage : IsWord "Package" := by decide
  have hpath : IsWord "Path" := by decide
  have himports : IsWord "Imports" := by decide
  intro p hp
  rw [headerItems, List.mem_append] at hp
  rcases hp with hp | hp
  · simp only [List.mem_cons, List.not_mem_nil, or_false] at hp
    rcases hp with rfl | rfl | rfl | rfl | rfl
    · trivial
    · trivial
    · exact hsyntax
    · exact hpackage
    · exact hpath
  · split at hp
    · cases hp
    · rcases List.mem_cons.mp hp with rfl | hp
      · exact himports
      · obtain ⟨_, _, rfl⟩ := List.mem_map.mp hp
        trivial

theorem plain_block {depth : Nat} {word name : String} {members : List Item} (hword : IsWord word)
    (hname : IsWord name) (hmembers : ∀ i ∈ members, i.Plain) :
    ∀ p ∈ blockItems depth word name members, p.2.Plain := by
  intro p hp
  simp only [blockItems, List.cons_append, List.mem_cons, List.mem_append, List.not_mem_nil,
    or_false] at hp
  rcases hp with rfl | hp | rfl
  · exact ⟨hword, hname⟩
  · obtain ⟨i, hi, rfl⟩ := List.mem_map.mp hp
    exact hmembers i hi
  · trivial

theorem plain_eventItems {e : Event} (h : ∀ name ∈ eventNames e, IsWord name) :
    ∀ p ∈ eventItems e, p.2.Plain := by
  cases e with
  | beginFile f => exact plain_header f
  | endFile f =>
    intro p hp
    cases hp
  | beginSection title =>
    intro p hp
    rw [List.mem_singleton.mp hp]
    show IsWord title.title
    cases title <;> decide
  | beginMessage m depth =>
    intro p hp
    have hword : IsWord "message" := by decide
    rw [List.mem_singleton.mp hp]
    exact ⟨hword, h _ List.mem_cons_self⟩
  | field f depth =>
    intro p hp
    rw [List.mem_singleton.mp hp]
    exact ⟨rfl, isWord_token f.kind, h _ List.mem_cons_self⟩
  | endMessage m depth =>
    intro p hp
    rw [List.mem_singleton.mp hp]
    trivial
  | enum e depth =>
    refine plain_block (by decide) (h _ List.mem_cons_self) ?_
    intro i hi
    obtain ⟨v, hv, rfl⟩ := List.mem_map.mp hi
    exact h v.name (List.mem_cons_of_mem _ (List.mem_map_of_mem hv))
  | service s depth =>
    refine plain_block (by decide) (h _ List.mem_cons_self) ?_
    intro i hi
    obtain ⟨m, hm, rfl⟩ := List.mem_map.mp hi
    have hall : ∀ name ∈ [m.name, m.input, m.output], IsWord name := fun name hname =>
      h name (List.mem_cons_of_mem _ (List.mem_flatMap.mpr ⟨m, hm, hname⟩))
    exact ⟨hall _ (by simp), hall _ (by simp), hall _ (by simp)⟩

/-! ### Reading a registry back -/

theorem mapM_readLine? {indent : String} (hi : ∀ c ∈ indent.toList, c = ' ')
    {items : List (Nat × Item)} (h : ∀ p ∈ items, p.2.Plain) :
    (items.map (line indent)).mapM readLine? = some (items.map (·.2)) := by
  induction items with
  | nil => rfl
  | cons p items ih =>
    have hfirst := readLine?_line hi (h p List.mem_cons_self)
    have hrest := ih fun q hq => h q (List.mem_cons_of_mem _ hq)
    rw [List.map_cons, List.mapM_cons, hfirst, hrest]
    rfl

/-- With an indent of blanks and words for names, the outline is read back from the text tree. -/
theorem readTree?_lines {indent : String} (hi : ∀ c ∈ indent.toList, c = ' ') {registry : Registry}
    (h : ∀ name ∈ shownNames registry, IsWord name) :
    readTree? (lines indent registry) = some ((Outline.ofRegistry registry).map .unnumbered) := by
  have hplain : ∀ p ∈ registry.events.flatMap eventItems, p.2.Plain := by
    intro p hp
    obtain ⟨e, he, hp⟩ := List.mem_flatMap.mp hp
    exact plain_eventItems (fun name hname => h name (List.mem_flatMap.mpr ⟨e, he, hname⟩)) p hp
  have hfiles := Draft.takeAll_files [] none ((Outline.ofRegistry registry).map .unnumbered)
  rw [lines_eq_events, readTree?, mapM_readLine? hi hplain, Option.map_some, List.foldl_map,
    events_items]
  exact congrArg some hfiles

/-- An indent of a number of blanks, which may be none. -/
def blanks (n : Nat) : String := String.ofList (List.replicate n ' ')

theorem mem_blanks {n : Nat} {c : Char} (h : c ∈ (blanks n).toList) : c = ' ' := by
  rw [blanks, String.toList_ofList] at h
  exact List.eq_of_mem_replicate h

/-- Two registries of the same outline, but for the numbers of fields, have the same text tree; and if
all names are words, the text tree determines the outline but for these numbers. -/
theorem lines_faithful (n : Nat) (r₁ r₂ : Registry) :
    ((Outline.ofRegistry r₁).map File.unnumbered = (Outline.ofRegistry r₂).map File.unnumbered →
      lines (blanks n) r₁ = lines (blanks n) r₂) ∧
    ((∀ name ∈ shownNames r₁ ++ shownNames r₂, IsWord name) →
      lines (blanks n) r₁ = lines (blanks n) r₂ →
        (Outline.ofRegistry r₁).map File.unnumbered = (Outline.ofRegistry r₂).map File.unnumbered) := by
  refine ⟨?_, ?_⟩
  · intro houtline
    rw [lines_eq_events, lines_eq_events, events_items, events_items, houtline]
  · intro hwords hlines
    have hblank : ∀ c ∈ (blanks n).toList, c = ' ' := fun c hc => mem_blanks hc
    -- Both outlines are read back, and what is read depends on the lines only.
    have hread₁ : readTree? (lines (blanks n) r₁) = some ((Outline.ofRegistry r₁).map File.unnumbered) :=
      readTree?_lines hblank fun name hname => hwords name (List.mem_append_left _ hname)
    have hread₂ : readTree? (lines (blanks n) r₂) = some ((Outline.ofRegistry r₂).map File.unnumbered) :=
      readTree?_lines hblank fun name hname => hwords name (List.mem_append_right _ hname)
    rw [hlines, hread₂] at hread₁
    exact (Option.some.inj hread₁).symm

/-- A registry of one file in which blocks lie inside blocks: nested messages, enums and a service. One of
its fields has a number. -/
def nestedBlocks (number : UInt32) : Registry :=
  .ofFiles [{
    name := "a.proto", dialect := .proto2, package := "p", imports := ["b.proto", "c d.proto"]
    messages := [{
      name := "A", fullName := "p.A"
      fields := [⟨"x", number, .string, true, false, .string "\x7d\n", none⟩,
        ⟨"y", 2, .enum, false, false, .enum "V" 0, some "p.A.E"⟩]
      messages := [
        { name := "B", fullName := "p.A.B"
          fields := [⟨"z", number, .message, false, false, .absent, some "p.A"⟩]
          messages := [{ name := "C", fullName := "p.A.B.C", fields := [], messages := [], enums := [] }]
          enums := [] },
        { name := "D", fullName := "p.A.D", fields := [], messages := [], enums := [⟨"F", []⟩] }]
      enums := [⟨"E", [⟨"V", 0⟩, ⟨"W", -1⟩]⟩] }]
    enums := [⟨"G", [⟨"U", 0⟩]⟩]
    services := [⟨"S", [⟨"Call", "A", "B", true, false⟩, ⟨"Get", "C", "D", false, true⟩]⟩] }]

theorem lines_faithful_nestedBlocks :
    lines (blanks 0) (nestedBlocks 1) = lines (blanks 0) (nestedBlocks 7) ∧
      (Outline.ofRegistry (nestedBlocks 1)).map File.unnumbered =
        (Outline.ofRegistry (nestedBlocks 7)).map File.unnumbered := by
  have hlines := (lines_faithful 0 (nestedBlocks 1) (nestedBlocks 7)).1 rfl
  have hwords : ∀ name ∈ shownNames (nestedBlocks 1) ++ shownNames (nestedBlocks 7), IsWord name := by
    decide
  exact ⟨hlines, (lines_faithful 0 (nestedBlocks 1) (nestedBlocks 7)).2 hwords hlines⟩

end SchemaTree.Tree
