import Mathlib.Algebra.BigOperators.Group.List.Basic
import Mathlib.Tactic.Ring
import SchemaTree.Proofs.Tree.Item
import SchemaTree.Stats

/-!
# Counting what an outline holds

Whatever is counted on a walk, a callback at a time, adds up to the same when it is counted on the outline,
a node at a time and at all depths. The counts of a registry and the number of lines of its text tree are
such sums.
-/

namespace SchemaTree.Outline

open Schema (Enum Service)

/-! ### The nodes of an outline -/

mutual

/-- A message and all messages nested in it, each before those nested in it. -/
def Message.tree : Message → List Message
  | m@⟨_, _, messages, _⟩ => m :: Message.trees messages

def Message.trees : List Message → List Message
  | [] => []
  | m :: ms => Message.tree m ++ Message.trees ms

end

/-- The messages of a file at all depths. -/
def File.messageTree (file : File) : List Message := Message.trees file.messages

/-- The sections of a file that have members. -/
def File.sections (file : File) : List Section :=
  (if file.messages.isEmpty then [] else [.messages]) ++ (if file.enums.isEmpty then [] else [.enums]) ++
    if file.services.isEmpty then [] else [.services]

/-! ### Sums over a walk and over outlines -/

/-- What each node of an outline counts for, and each title of a section. -/
structure Weights where
  file : File → Nat := fun _ => 0
  title : Nat := 0
  /-- What a message counts for where it begins. -/
  opening : Nat := 0
  /-- What a message counts for where it ends. -/
  closing : Nat := 0
  field : Nat := 0
  enum : Enum → Nat := fun _ => 0
  service : Service → Nat := fun _ => 0

namespace Weights
variable (w : Weights)

/-- What a callback counts for. -/
def event : Event → Nat
  | .beginFile f => w.file (.of f)
  | .endFile _ => 0
  | .beginSection _ => w.title
  | .beginMessage _ _ => w.opening
  | .field _ _ => w.field
  | .endMessage _ _ => w.closing
  | .enum e _ => w.enum e
  | .service s _ => w.service s

/-- What messages count for with their own fields and enums. -/
def ofMessages (ms : List Message) : Nat :=
  (w.opening + w.closing) * ms.length + w.field * (ms.flatMap (·.fields)).length +
    ((ms.flatMap (·.enums)).map w.enum).sum

/-- What a file counts for with everything in it. -/
def ofFile (f : File) : Nat :=
  w.file f + w.title * f.sections.length + (f.enums.map w.enum).sum + w.ofMessages f.messageTree +
    (f.services.map w.service).sum

/-- What files count for, all nodes of one kind taken together. -/
def ofFiles (files : List File) : Nat :=
  (files.map w.file).sum + w.title * (files.flatMap (·.sections)).length +
    ((files.flatMap (·.enums)).map w.enum).sum + w.ofMessages (files.flatMap (·.messageTree)) +
    ((files.flatMap (·.services)).map w.service).sum

theorem ofMessages_cons (m : Message) (ms : List Message) : w.ofMessages (m :: ms) =
    w.opening + w.field * m.fields.length + w.ofMessages ms + (m.enums.map w.enum).sum + w.closing := by
  simp only [ofMessages, List.length_cons, List.flatMap_cons, List.length_append, List.map_append,
    List.sum_append]
  ring

theorem ofMessages_append (xs ys : List Message) :
    w.ofMessages (xs ++ ys) = w.ofMessages xs + w.ofMessages ys := by
  simp only [ofMessages, List.length_append, List.flatMap_append, List.map_append, List.sum_append]
  ring

theorem ofFiles_cons (f : File) (files : List File) :
    w.ofFiles (f :: files) = w.ofFile f + w.ofFiles files := by
  simp only [ofFiles, ofFile, List.map_cons, List.sum_cons, List.flatMap_cons, List.length_append,
    List.map_append, List.sum_append, ofMessages_append]
  ring

mutual

theorem sum_message : ∀ (depth : Nat) (m : Schema.Message),
    ((messageEvents depth m).map w.event).sum = w.ofMessages (Message.of m).tree
  | depth, ⟨name, fullName, fields, messages, enums⟩ => by
    have hmessages := sum_messages (depth + 1) messages
    simp only [messageEvents, List.cons_append, List.map_cons, List.map_append, List.map_map,
      Function.comp_def, event, List.sum_cons, List.sum_append, hmessages, Message.of, Message.tree,
      ofMessages_cons, List.map_nil, List.sum_nil, List.map_const', List.sum_replicate, List.length_map]
    ring

theorem sum_messages : ∀ (depth : Nat) (ms : List Schema.Message),
    ((messagesEvents depth ms).map w.event).sum = w.ofMessages (Message.trees (Message.ofAll ms))
  | _, [] => by simp [messagesEvents, Message.ofAll, Message.trees, ofMessages]
  | depth, m :: ms => by
    rw [messagesEvents, List.map_append, List.sum_append, sum_message depth m, sum_messages depth ms,
      Message.ofAll, Message.trees, ofMessages_append]

end

theorem sum_section (title : Section) (members : List Event) :
    ((sectionEvents title members).map w.event).sum =
      (if members.isEmpty then 0 else w.title) + (members.map w.event).sum := by
  cases members with
  | nil => rfl
  | cons e members => rfl

theorem title_sections (f : File) : w.title * f.sections.length =
    (if f.messages.isEmpty then 0 else w.title) + (if f.enums.isEmpty then 0 else w.title) +
      if f.services.isEmpty then 0 else w.title := by
  have htitle (c : Bool) (s : Section) :
      w.title * (if c then [] else [s]).length = if c then 0 else w.title := by
    cases c with
    | true => rfl
    | false => exact Nat.mul_one w.title
  simp only [File.sections, List.length_append, Nat.mul_add, htitle]

theorem sum_file (f : Schema.File) : ((fileEvents f).map w.event).sum = w.ofFile (.of f) := by
  have hmessages : (File.of f).messages.isEmpty = f.messages.isEmpty := by
    rw [File.of]
    cases f.messages with
    | nil => rfl
    | cons m ms => rfl
  have henums : (File.of f).enums = f.enums := rfl
  have hservices : (File.of f).services = f.services := rfl
  have htree : (File.of f).messageTree = Message.trees (Message.ofAll f.messages) := rfl
  -- A callback counts for the same at every depth; the messages of a file begin at depth 1.
  rw [ofFile, title_sections, hmessages, henums, hservices, htree, ← w.sum_messages 1]
  simp only [fileEvents, List.cons_append, List.map_cons, List.map_append, List.sum_cons, List.sum_append,
    sum_section, messagesEvents_isEmpty, List.isEmpty_map, List.map_map, Function.comp_def, event,
    List.map_nil, List.sum_nil]
  ring

/-- Counting on the walk of a registry adds up to the same as counting on its outline. -/
theorem sum_events (registry : Registry) :
    (registry.events.map w.event).sum = w.ofFiles (ofRegistry registry) := by
  rw [ofRegistry_eq_map, Registry.events]
  generalize registry.files = files
  induction files with
  | nil => simp [ofFiles, ofMessages]
  | cons f files ih =>
    rw [List.flatMap_cons, List.map_append, List.sum_append, sum_file, ih, List.map_cons, ofFiles_cons]

/-! ### Counts -/

def files : Weights := { file := fun _ => 1 }

def messages : Weights := { opening := 1 }

def fields : Weights := { field := 1 }

def enums : Weights := { enum := fun _ => 1 }

def services : Weights := { service := fun _ => 1 }

def methods : Weights := { service := fun s => s.methods.length }

theorem counter_step (s : Stats) (e : Event) : Stats.counter.step s e =
    { files := s.files + files.event e
      messages := s.messages + messages.event e
      fields := s.fields + fields.event e
      enums := s.enums + enums.event e
      services := s.services + services.event e
      methods := s.methods + methods.event e } := by
  cases e with
  | beginFile f => rfl
  | endFile f => rfl
  | beginSection title => rfl
  | beginMessage m depth => rfl
  | field f depth => rfl
  | endMessage m depth => rfl
  | enum e depth => rfl
  | service s depth => rfl

/-- Each count of a walk is a sum over its callbacks. -/
theorem counter_foldl (events : List Event) (s : Stats) : events.foldl Stats.counter.step s =
    { files := s.files + (events.map files.event).sum
      messages := s.messages + (events.map messages.event).sum
      fields := s.fields + (events.map fields.event).sum
      enums := s.enums + (events.map enums.event).sum
      services := s.services + (events.map services.event).sum
      methods := s.methods + (events.map methods.event).sum } := by
  induction events generalizing s with
  | nil => rfl
  | cons e events ih =>
    rw [List.foldl_cons, ih, counter_step]
    simp only [List.map_cons, List.sum_cons, Nat.add_assoc]

theorem stats_eq (registry : Registry) : Stats.ofRegistry registry =
    { files := files.ofFiles (ofRegistry registry)
      messages := messages.ofFiles (ofRegistry registry)
      fields := fields.ofFiles (ofRegistry registry)
      enums := enums.ofFiles (ofRegistry registry)
      services := services.ofFiles (ofRegistry registry)
      methods := methods.ofFiles (ofRegistry registry) } := by
  rw [Stats.ofRegistry, walk_eq_foldl, counter_foldl]
  simp only [sum_events, Nat.zero_add]

/-! ### Lines -/

def lines : Weights where
  file f := 5 + if f.imports.isEmpty then 0 else 1 + f.imports.length
  title := 1
  opening := 1
  closing := 1
  field := 1
  enum e := 2 + e.values.length
  service s := 2 + s.methods.length

theorem length_eventItems (e : Event) : (Tree.eventItems e).length = lines.event e := by
  have hblock (depth : Nat) (word name : String) (members : List Tree.Item) :
      (Tree.blockItems depth word name members).length = 2 + members.length := by
    simp only [Tree.blockItems, List.length_append, List.length_cons, List.length_map, List.length_nil]
    omega
  cases e with
  | beginFile f =>
    simp only [Tree.eventItems, Tree.headerItems, event, lines, File.of]
    split
    · rfl
    · simp only [List.length_append, List.length_cons, List.length_map, List.length_nil]
      omega
  | endFile f => rfl
  | beginSection title => rfl
  | beginMessage m depth => rfl
  | field f depth => rfl
  | endMessage m depth => rfl
  | enum e depth =>
    rw [Tree.eventItems, Tree.enumItems, hblock, List.length_map]
    rfl
  | service s depth =>
    rw [Tree.eventItems, Tree.serviceItems, hblock, List.length_map]
    rfl

theorem length_lines (indent : String) (registry : Registry) :
    (Tree.lines indent registry).length = lines.ofFiles (ofRegistry registry) := by
  rw [Tree.lines_eq_events, List.length_map, List.length_flatMap, ← sum_events]
  simp only [length_eventItems]

end Weights

/-- The counts of a registry are the numbers of the nodes in its outline, at all depths, and with any indent
its text tree has as many lines as these nodes take. The outline has one file for each in the registry. -/
theorem counts_agree (registry : Registry) :
    let files := ofRegistry registry
    let messages := files.flatMap (·.messageTree)
    let fields := messages.flatMap (·.fields)
    let enums := files.flatMap (·.enums) ++ messages.flatMap (·.enums)
    let services := files.flatMap (·.services)
    let methods := services.flatMap (·.methods)
    files = registry.files.map File.of ∧
    Stats.ofRegistry registry =
      { files := files.length, messages := messages.length, fields := fields.length
        enums := enums.length, services := services.length, methods := methods.length } ∧
    ∀ indent, (Tree.lines indent registry).length =
      5 * files.length + (files.map fun f => if f.imports.isEmpty then 0 else 1 + f.imports.length).sum +
        (files.flatMap (·.sections)).length + 2 * messages.length + fields.length +
        2 * enums.length + (enums.flatMap (·.values)).length + 2 * services.length + methods.length := by
  intro files messages fields enums services methods
  refine ⟨ofRegistry_eq_map registry, ?_, ?_⟩
  · rw [Weights.stats_eq]
    simp [Weights.ofFiles, Weights.ofMessages, Weights.files, Weights.messages, Weights.fields,
      Weights.enums, Weights.services, Weights.methods, files, messages, fields, enums, services, methods]
  · intro indent
    rw [Weights.length_lines]
    simp only [Weights.ofFiles, Weights.ofMessages, Weights.lines, List.sum_map_add, List.map_const',
      List.sum_replicate, nsmul_eq_mul, Nat.cast_id, one_mul, Nat.reduceAdd, List.length_append,
      List.flatMap_append, List.length_flatMap, files, messages, fields, enums, services, methods]
    omega

end SchemaTree.Outline
