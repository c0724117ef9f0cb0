import SchemaTree.Proofs.Registry
import SchemaTree.Proofs.Walk

/-!
# The order of a walk

A grammar of the events of a walk, as the steps of a machine that knows which files, sections and
members are still to come and which messages are open. Each rule says where one callback may occur
and at which depth. The events of a registry lead from the place before its files to the place where
nothing is left, so that every visitor sees a traversal of this form.
-/

namespace SchemaTree
open Schema

namespace Traversal

/-- A message that has begun and has not ended, with the members that are still to come. -/
structure OpenMessage where
  message : Message
  fields : List Field
  messages : List Message
  enums : List Enum

def OpenMessage.of (m : Message) : OpenMessage := ⟨m, m.fields, m.messages, m.enums⟩

/-- A file that has begun and has not ended, with the members that are still to come and the section
that was announced last. -/
structure OpenFile where
  file : File
  messages : List Message
  enums : List Enum
  services : List Service
  announced : Option Section

def OpenFile.of (file : File) : OpenFile := ⟨file, file.messages, file.enums, file.services, none⟩

/-- The section of the next member of a file: messages, then enums, then services. -/
def OpenFile.next? (f : OpenFile) : Option Section :=
  if f.messages ≠ [] then some .messages
  else if f.enums ≠ [] then some .enums
  else if f.services ≠ [] then some .services
  else none

/-- A place between two events of a walk: what is still to come of the open file, its open messages from
the innermost out, and the files after it. -/
inductive Position
  | outside (files : List File)
  | inside (file : OpenFile) (opened : List OpenMessage) (files : List File)

/-- Where an event may occur, and the place it leads to. -/
inductive Step : Position → Event → Position → Prop
  | beginFile (file : File) (files : List File) :
      Step (.outside (file :: files)) (.beginFile file) (.inside (.of file) [] files)
  | endFile (f : OpenFile) (files : List File) : f.next? = none →
      Step (.inside f [] files) (.endFile f.file) (.outside files)
  -- A section is announced when its first member is next, and not again before its other members.
  | beginSection (f : OpenFile) (s : Section) (files : List File) : f.next? = some s →
      f.announced ≠ some s →
      Step (.inside f [] files) (.beginSection s) (.inside { f with announced := some s } [] files)
  | beginMessage (f : OpenFile) (m : Message) (ms : List Message) (files : List File) :
      f.messages = m :: ms → f.announced = some .messages →
      Step (.inside f [] files) (.beginMessage m 1) (.inside { f with messages := ms } [.of m] files)
  -- Once it has begun, the depth of a message is the number of open messages.
  | beginNested (f : OpenFile) (p : OpenMessage) (m : Message) (ms : List Message)
      (opened : List OpenMessage) (files : List File) : p.fields = [] → p.messages = m :: ms →
      Step (.inside f (p :: opened) files) (.beginMessage m (p :: opened).length.succ)
        (.inside f (.of m :: { p with messages := ms } :: opened) files)
  | field (f : OpenFile) (p : OpenMessage) (x : Field) (xs : List Field) (opened : List OpenMessage)
      (files : List File) : p.fields = x :: xs →
      Step (.inside f (p :: opened) files) (.field x (p :: opened).length)
        (.inside f ({ p with fields := xs } :: opened) files)
  | endMessage (f : OpenFile) (p : OpenMessage) (opened : List OpenMessage) (files : List File) :
      p.fields = [] → p.messages = [] → p.enums = [] →
      Step (.inside f (p :: opened) files) (.endMessage p.message (p :: opened).length)
        (.inside f opened files)
  | enum (f : OpenFile) (e : Enum) (es : List Enum) (files : List File) : f.messages = [] →
      f.enums = e :: es → f.announced = some .enums →
      Step (.inside f [] files) (.enum e 1) (.inside { f with enums := es } [] files)
  -- A nested enum waits for all fields and messages of the message around it, and is one deeper.
  | nestedEnum (f : OpenFile) (p : OpenMessage) (e : Enum) (es : List Enum)
      (opened : List OpenMessage) (files : List File) : p.fields = [] → p.messages = [] →
      p.enums = e :: es →
      Step (.inside f (p :: opened) files) (.enum e (p :: opened).length.succ)
        (.inside f ({ p with enums := es } :: opened) files)
  | service (f : OpenFile) (x : Service) (xs : List Service) (files : List File) : f.messages = [] →
      f.enums = [] → f.services = x :: xs → f.announced = some .services →
      Step (.inside f [] files) (.service x 1) (.inside { f with services := xs } [] files)

/-- Events that lead from one place to another, each where it may occur. -/
inductive Steps : Position → List Event → Position → Prop
  | nil (p : Position) : Steps p [] p
  | cons {p q r : Position} {e : Event} {events : List Event} : Step p e q → Steps q events r →
      Steps p (e :: events) r

theorem Step.run {p q : Position} {e : Event} (h : Step p e q) : Steps p [e] q := .cons h (.nil q)

theorem Steps.append {p q r : Position} {xs ys : List Event} (hx : Steps p xs q)
    (hy : Steps q ys r) : Steps p (xs ++ ys) r := by
  induction hx with
  | nil => exact hy
  | cons h _ ih => exact .cons h (ih hy)

/-! ### Members of a message -/

section Message
variable (f : OpenFile) (m : Message) (ms : List Message) (es : List Enum) (opened : List OpenMessage)
  (files : List File)

theorem fields_steps (xs : List Field) :
    Steps (.inside f (⟨m, xs, ms, es⟩ :: opened) files)
      (xs.map fun x => .field x opened.length.succ)
      (.inside f (⟨m, [], ms, es⟩ :: opened) files) := by
  induction xs with
  | nil => exact .nil _
  | cons x xs ih => exact .cons (.field f ⟨m, x :: xs, ms, es⟩ x xs opened files rfl) ih

theorem nestedEnums_steps :
    Steps (.inside f (⟨m, [], [], es⟩ :: opened) files)
      (es.map fun e => .enum e opened.length.succ.succ)
      (.inside f (⟨m, [], [], []⟩ :: opened) files) := by
  induction es with
  | nil => exact .nil _
  | cons e es ih =>
    exact .cons (.nestedEnum f ⟨m, [], [], e :: es⟩ e es opened files rfl rfl rfl) ih

end Message

mutual

/-- The events of a message lead from where it may begin to where the messages around it are open. -/
theorem message_steps : ∀ (m : Message) (f : OpenFile) (opened : List OpenMessage)
    (files : List File) (p : Position),
    Step p (.beginMessage m opened.length.succ) (.inside f (.of m :: opened) files) →
    Steps p (messageEvents opened.length.succ m) (.inside f opened files)
  | ⟨name, fullName, fields, messages, enums⟩, f, opened, files, p, h => by
    simp only [messageEvents, List.cons_append, List.append_assoc]
    refine .cons h ?_
    refine (fields_steps f _ messages enums opened files fields).append ?_
    refine (nested_steps messages f _ enums opened files).append ?_
    refine (nestedEnums_steps f _ enums opened files).append ?_
    exact (Step.endMessage f ⟨_, [], [], []⟩ opened files rfl rfl rfl).run

theorem nested_steps : ∀ (ms : List Message) (f : OpenFile) (m : Message) (es : List Enum)
    (opened : List OpenMessage) (files : List File),
    Steps (.inside f (⟨m, [], ms, es⟩ :: opened) files)
      (messagesEvents opened.length.succ.succ ms)
      (.inside f (⟨m, [], [], es⟩ :: opened) files)
  | [], _, _, _, _, _ => .nil _
  | x :: ms, f, m, es, opened, files => by
    rw [messagesEvents]
    have hbegin := Step.beginNested f ⟨m, [], x :: ms, es⟩ x ms opened files rfl rfl
    refine (message_steps x f (⟨m, [], ms, es⟩ :: opened) files _ hbegin).append ?_
    exact nested_steps ms f m es opened files

end

/-! ### Members of a file -/

section File
variable (file : File) (es : List Enum) (xs : List Service) (files : List File)

theorem messages_steps (ms : List Message) :
    Steps (.inside ⟨file, ms, es, xs, some .messages⟩ [] files) (messagesEvents 1 ms)
      (.inside ⟨file, [], es, xs, some .messages⟩ [] files) := by
  induction ms with
  | nil => exact .nil _
  | cons m ms ih =>
    rw [messagesEvents]
    have hbegin := Step.beginMessage ⟨file, m :: ms, es, xs, some .messages⟩ m ms files rfl rfl
    exact (message_steps m _ [] files _ hbegin).append ih

theorem enums_steps :
    Steps (.inside ⟨file, [], es, xs, some .enums⟩ [] files) (es.map fun e => .enum e 1)
      (.inside ⟨file, [], [], xs, some .enums⟩ [] files) := by
  induction es with
  | nil => exact .nil _
  | cons e es ih =>
    exact .cons (.enum ⟨file, [], e :: es, xs, some .enums⟩ e es files rfl rfl rfl) ih

theorem services_steps :
    Steps (.inside ⟨file, [], [], xs, some .services⟩ [] files) (xs.map fun x => .service x 1)
      (.inside ⟨file, [], [], [], some .services⟩ [] files) := by
  induction xs with
  | nil => exact .nil _
  | cons x xs ih =>
    exact .cons (.service ⟨file, [], [], x :: xs, some .services⟩ x xs files rfl rfl rfl rfl) ih

end File

/-- A section that has not been announced leads from its first member to the one after its last. It
is announced on the way if it has members. -/
theorem section_steps {f g : OpenFile} {s : Section} (events : List Event) (files : List File)
    (hnil : events = [] → g = f) (hnext : events ≠ [] → f.next? = some s)
    (hnew : f.announced ≠ some s)
    (hmembers : Steps (.inside { f with announced := some s } [] files) events
      (.inside { g with announced := some s } [] files)) :
    ∃ announced, (announced = f.announced ∨ announced = some s) ∧
      Steps (.inside f [] files) (sectionEvents s events)
        (.inside { g with announced := announced } [] files) := by
  unfold sectionEvents
  by_cases h : events = []
  · refine ⟨f.announced, .inl rfl, ?_⟩
    rw [if_pos (List.isEmpty_iff.2 h), hnil h]
    exact .nil _
  · refine ⟨some s, .inr rfl, ?_⟩
    rw [if_neg (by rwa [List.isEmpty_iff])]
    exact .cons (.beginSection f s files (hnext h) hnew) hmembers

theorem messagesEvents_eq_nil {depth : Nat} {ms : List Message} :
    messagesEvents depth ms = [] ↔ ms = [] := by
  rw [← List.isEmpty_iff, messagesEvents_isEmpty, List.isEmpty_iff]

theorem file_steps (file : File) (files : List File) :
    Steps (.outside (file :: files)) (fileEvents file) (.outside files) := by
  obtain ⟨a, ha, hmessages⟩ := section_steps (f := ⟨file, file.messages, file.enums, file.services, none⟩)
    (g := ⟨file, [], file.enums, file.services, none⟩) (s := .messages)
    (messagesEvents 1 file.messages) files
    (fun h => by rw [messagesEvents_eq_nil.1 h]) (fun h => if_pos (mt messagesEvents_eq_nil.2 h)) nofun
    (messages_steps file file.enums file.services files file.messages)
  obtain ⟨b, hb, henums⟩ := section_steps (f := ⟨file, [], file.enums, file.services, a⟩)
    (g := ⟨file, [], [], file.services, a⟩) (s := .enums) (file.enums.map fun e => .enum e 1) files
    (fun h => by rw [List.map_eq_nil_iff.1 h]) (fun h => by simpa [OpenFile.next?] using h)
    (by rcases ha with rfl | rfl <;> nofun) (enums_steps file file.enums file.services files)
  obtain ⟨c, -, hservices⟩ := section_steps (f := ⟨file, [], [], file.services, b⟩)
    (g := ⟨file, [], [], [], b⟩) (s := .services) (file.services.map fun x => .service x 1) files
    (fun h => by rw [List.map_eq_nil_iff.1 h]) (fun h => by simpa [OpenFile.next?] using h)
    (by rcases ha with rfl | rfl <;> rcases hb with rfl | rfl <;> nofun)
    (services_steps file file.services files)
  have hend := Step.endFile ⟨file, [], [], [], c⟩ files rfl
  exact .cons (.beginFile file files) (((hmessages.append henums).append hservices).append hend.run)

theorem files_steps (files : List File) :
    Steps (.outside files) (files.flatMap fileEvents) (.outside []) := by
  induction files with
  | nil => exact .nil _
  | cons file files ih =>
    rw [List.flatMap_cons]
    exact (file_steps file files).append ih

end Traversal

/-- Every visitor sees the events of the registry alone, and these traverse its files in the order
of the names they are registered under. -/
theorem walk_traverses (registry : Registry) :
    (∀ {σ : Type u} (v : Visitor σ) (s : σ), walk v registry s = registry.events.foldl v.step s) ∧
    registry.names.Pairwise (· < ·) ∧
    registry.names.map registry.get? = registry.files.map some ∧
    Traversal.Steps (.outside registry.files) registry.events (.outside []) :=
  ⟨fun v s => walk_eq_foldl v registry s, registry.names_sorted, registry.map_get?_names,
    Traversal.files_steps registry.files⟩

end SchemaTree
