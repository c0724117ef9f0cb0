import SchemaTree.Outline.Basic
import SchemaTree.Proofs.Walk

/-!
# Outlines by recursion on messages

The builder of outlines is a stack machine. What it builds on a walk is the outline that plain
recursion on the messages gives, and on the way no callback ever finds the stack or the file missing
that it puts something into.
-/

namespace SchemaTree.Outline
open Schema (Enum Service)

/-! ### The recursion -/

mutual

def Message.of : Schema.Message → Message
  | ⟨name, _, fields, messages, enums⟩ => ⟨name, fields.map .of, Message.ofAll messages, enums⟩

def Message.ofAll : List Schema.Message → List Message
  | [] => []
  | m :: ms => Message.of m :: Message.ofAll ms

end

def File.of (file : Schema.File) : File :=
  { name := file.name
    dialect := file.dialect.token
    package := file.package
    imports := file.imports
    messages := Message.ofAll file.messages
    enums := file.enums
    services := file.services }

namespace Builder

/-! ### Attaching several elements -/

def putMessages (b : Builder) (ms : List Message) : Builder :=
  b.attach (fun p => { p with messages := p.messages ++ ms })
    (fun f => { f with messages := f.messages ++ ms })

def putEnums (b : Builder) (es : List Enum) : Builder :=
  b.attach (fun p => { p with enums := p.enums ++ es }) (fun f => { f with enums := f.enums ++ es })

def putServices (b : Builder) (xs : List Service) : Builder :=
  { b with current := b.current.map fun f => { f with services := f.services ++ xs } }

theorem attach_same (b : Builder) {g : Message → Message} {h : File → File} (hg : ∀ m, g m = m)
    (hh : ∀ f, h f = f) : b.attach g h = b := by
  obtain ⟨finished, current, stack⟩ := b
  cases stack with
  | nil =>
    cases current with
    | none => rfl
    | some f => simp only [attach, Option.map_some, hh]
  | cons m rest => simp only [attach, hg]

theorem attach_attach (b : Builder) (g g' : Message → Message) (h h' : File → File) :
    (b.attach g h).attach g' h' = b.attach (fun m => g' (g m)) (fun f => h' (h f)) := by
  obtain ⟨finished, current, stack⟩ := b
  cases stack with
  | nil => simp only [attach, Option.map_map, Function.comp_def]
  | cons m rest => rfl

theorem isSome_attach (b : Builder) (g : Message → Message) (h : File → File) :
    (b.attach g h).current.isSome = b.current.isSome := by
  obtain ⟨finished, current, stack⟩ := b
  cases stack with
  | nil => exact Option.isSome_map
  | cons m rest => rfl

theorem putMessages_nil (b : Builder) : b.putMessages [] = b := by
  refine b.attach_same (fun m => ?_) (fun f => ?_)
  · cases m
    rw [List.append_nil]
  · rw [List.append_nil]

theorem putMessages_putMessages (b : Builder) (xs ys : List Message) :
    (b.putMessages xs).putMessages ys = b.putMessages (xs ++ ys) := by
  simp only [putMessages, attach_attach, List.append_assoc]

theorem putEnums_nil (b : Builder) : b.putEnums [] = b := by
  refine b.attach_same (fun m => ?_) (fun f => ?_)
  · cases m
    rw [List.append_nil]
  · rw [List.append_nil]

theorem putEnums_putEnums (b : Builder) (xs ys : List Enum) :
    (b.putEnums xs).putEnums ys = b.putEnums (xs ++ ys) := by
  simp only [putEnums, attach_attach, List.append_assoc]

/-! ### Runs without loss -/

/-- Whether a builder has the place that the callback of an event puts something into, and holds
nothing that the callback would lose. -/
def Accepts (b : Builder) : Event → Prop
  | .beginFile _ => b.current = none ∧ b.stack = []
  | .endFile _ => b.current.isSome ∧ b.stack = []
  | .beginSection _ => b.current.isSome ∧ b.stack = []
  | .beginMessage .. => b.current.isSome
  | .field .. => b.current.isSome ∧ b.stack ≠ []
  | .endMessage .. => b.current.isSome ∧ b.stack ≠ []
  | .enum .. => b.current.isSome
  | .service .. => b.current.isSome ∧ b.stack = []

/-- Events that lead from one builder to another, each accepted where it occurs. -/
inductive Runs : Builder → List Event → Builder → Prop
  | nil (b : Builder) : Runs b [] b
  | cons {b b' : Builder} {e : Event} {events : List Event} : b.Accepts e →
      Runs (builder.step b e) events b' → Runs b (e :: events) b'

theorem Runs.append {b₁ b₂ b₃ : Builder} {xs ys : List Event} (hx : Runs b₁ xs b₂)
    (hy : Runs b₂ ys b₃) : Runs b₁ (xs ++ ys) b₃ := by
  induction hx with
  | nil => exact hy
  | cons h _ ih => exact .cons h (ih hy)

theorem Runs.foldl_eq {b b' : Builder} {events : List Event} (h : Runs b events b') :
    events.foldl builder.step b = b' := by
  induction h with
  | nil => rfl
  | cons _ _ ih => exact ih

/-- Wherever a run is cut, the builder there accepts the next event. -/
theorem Runs.accepts {b b' : Builder} {events before after : List Event} {e : Event}
    (h : Runs b events b') (hcut : events = before ++ e :: after) :
    (before.foldl builder.step b).Accepts e := by
  induction before generalizing b events with
  | nil =>
    subst hcut
    cases h with
    | cons haccepts _ => exact haccepts
  | cons first before ih =>
    subst hcut
    cases h with
    | cons _ hrest => exact ih hrest rfl

/-- Events that are accepted one by one, each adding its element to a list that the builder holds. -/
theorem runs_map (event : α → Event) (b : List α → Builder)
    (h : ∀ xs x, (b xs).Accepts (event x) ∧ builder.step (b xs) (event x) = b (xs ++ [x]))
    (xs more : List α) : Runs (b xs) (more.map event) (b (xs ++ more)) := by
  induction more generalizing xs with
  | nil =>
    rw [List.append_nil]
    exact .nil _
  | cons x more ih =>
    obtain ⟨haccepts, hstep⟩ := h xs x
    have hrest := ih (xs ++ [x])
    rw [List.append_assoc, ← hstep] at hrest
    exact .cons haccepts hrest

/-! ### Members of a message -/

theorem runs_fields {b : Builder} (hfile : b.current.isSome) (depth : Nat)
    (fields : List Schema.Field) (name : String) (rest : List Message) :
    Runs { b with stack := ⟨name, [], [], []⟩ :: rest } (fields.map fun f => .field f depth)
      { b with stack := ⟨name, fields.map .of, [], []⟩ :: rest } := by
  refine runs_map (fun f => .field f depth)
    (fun xs => { b with stack := ⟨name, xs.map .of, [], []⟩ :: rest }) ?_ [] fields
  intro xs x
  refine ⟨⟨hfile, List.cons_ne_nil _ _⟩, ?_⟩
  rw [List.map_append]
  rfl

theorem runs_enums {b : Builder} (hfile : b.current.isSome) (depth : Nat) (enums : List Enum) :
    Runs b (enums.map fun e => .enum e depth) (b.putEnums enums) := by
  have hstep (xs : List Enum) (x : Enum) : (b.putEnums xs).Accepts (.enum x depth) ∧
      builder.step (b.putEnums xs) (.enum x depth) = b.putEnums (xs ++ [x]) := by
    rw [← putEnums_putEnums]
    exact ⟨(isSome_attach _ _ _).trans hfile, rfl⟩
  have hruns := runs_map (fun e => .enum e depth) b.putEnums hstep [] enums
  rwa [putEnums_nil] at hruns

mutual

/-- The events of a message attach its outline to what encloses it. -/
theorem runs_message : ∀ {b : Builder}, b.current.isSome → ∀ (depth : Nat) (m : Schema.Message),
    Runs b (messageEvents depth m) (b.putMessages [.of m])
  | b, hfile, depth, ⟨name, fullName, fields, messages, enums⟩ => by
    -- The message stands on top of the stack while its members are added to it.
    have hfields := runs_fields hfile depth fields name b.stack
    have hmessages := runs_messages
      (b := { b with stack := ⟨name, fields.map .of, [], []⟩ :: b.stack }) hfile (depth + 1) messages
    have henums := runs_enums
      (b := { b with stack := ⟨name, fields.map .of, Message.ofAll messages, []⟩ :: b.stack })
      hfile (depth + 1) enums
    have hend : Runs
        { b with stack := ⟨name, fields.map .of, Message.ofAll messages, enums⟩ :: b.stack }
        [.endMessage ⟨name, fullName, fields, messages, enums⟩ depth]
        (b.putMessages [⟨name, fields.map .of, Message.ofAll messages, enums⟩]) :=
      .cons ⟨hfile, List.cons_ne_nil _ _⟩ (.nil _)
    exact .cons hfile (((hfields.append hmessages).append henums).append hend)

theorem runs_messages : ∀ {b : Builder}, b.current.isSome → ∀ (depth : Nat)
    (ms : List Schema.Message), Runs b (messagesEvents depth ms) (b.putMessages (Message.ofAll ms))
  | b, _, _, [] => by
    rw [Message.ofAll, putMessages_nil]
    exact .nil b
  | b, hfile, depth, m :: ms => by
    have hfirst := runs_message hfile depth m
    -- The first message has been attached, which keeps the file open for the others.
    have hrest := runs_messages (b := b.putMessages [.of m]) ((isSome_attach _ _ _).trans hfile)
      depth ms
    rw [putMessages_putMessages] at hrest
    exact hfirst.append hrest

end

/-! ### Files -/

theorem runs_services (finished : List File) (f : File) (services : List Service) :
    Runs ⟨finished, some { f with services := [] }, []⟩ (services.map fun x => .service x 1)
      ⟨finished, some { f with services }, []⟩ := by
  refine runs_map (fun x => .service x 1)
    (fun xs => ⟨finished, some { f with services := xs }, []⟩) ?_ [] services
  intro xs x
  exact ⟨⟨rfl, rfl⟩, rfl⟩

theorem runs_section {b b' : Builder} (title : Section) {members : List Event}
    (hfile : b.current.isSome) (hstack : b.stack = []) (h : Runs b members b') :
    Runs b (sectionEvents title members) b' := by
  cases members with
  | nil => exact h
  | cons e members => exact .cons ⟨hfile, hstack⟩ h

/-- From a state between files, the events of a file append its outline to the finished ones and lead
to a state between files. -/
theorem runs_file (finished : List File) (file : Schema.File) :
    Runs ⟨finished, none, []⟩ (fileEvents file) ⟨finished ++ [.of file], none, []⟩ := by
  have hmessages := runs_messages (b := ⟨finished,
    some ⟨file.name, file.dialect.token, file.package, file.imports, [], [], []⟩, []⟩) rfl 1
    file.messages
  have henums := runs_enums (b := ⟨finished, some ⟨file.name, file.dialect.token, file.package,
    file.imports, Message.ofAll file.messages, [], []⟩, []⟩) rfl 1 file.enums
  have hservices := runs_services finished (.of file) file.services
  have hend : Runs ⟨finished, some (.of file), []⟩ [.endFile file]
      ⟨finished ++ [.of file], none, []⟩ := .cons ⟨rfl, rfl⟩ (.nil _)
  exact .cons ⟨rfl, rfl⟩ ((((runs_section _ rfl rfl hmessages).append
    (runs_section _ rfl rfl henums)).append (runs_section _ rfl rfl hservices)).append hend)

theorem runs_files (finished : List File) (files : List Schema.File) :
    Runs ⟨finished, none, []⟩ (files.flatMap fileEvents) ⟨finished ++ files.map .of, none, []⟩ := by
  induction files generalizing finished with
  | nil =>
    rw [List.map_nil, List.append_nil]
    exact .nil _
  | cons file files ih =>
    have hrest := ih (finished ++ [.of file])
    rw [List.append_assoc] at hrest
    exact (runs_file finished file).append hrest

end Builder

theorem ofRegistry_eq_map (registry : Registry) : ofRegistry registry = registry.files.map .of := by
  have hruns := (Builder.runs_files [] registry.files).foldl_eq
  rw [ofRegistry, walk_eq_foldl, Registry.events, hruns]
  rfl

/-- Between files, with no file open and no message on the stack, the builder of outlines takes every
file to its outline by recursion. So the outlines of a registry are those of its files in their order,
and wherever its walk is cut, the builder has the place that the next callback puts something into. -/
theorem builder_recursion :
    (∀ (file : Schema.File) (finished : List File),
      walkFile builder file ⟨finished, none, []⟩ = ⟨finished ++ [.of file], none, []⟩) ∧
    (∀ registry : Registry, ofRegistry registry = registry.files.map .of) ∧
    (∀ (registry : Registry) (b : Builder),
      walk builder registry b = registry.events.foldl builder.step b) ∧
    ∀ (registry : Registry) (finished : List File) (before after : List Event) (e : Event),
      registry.events = before ++ e :: after →
        (before.foldl builder.step ⟨finished, none, []⟩).Accepts e := by
  refine ⟨?_, ofRegistry_eq_map, walk_eq_foldl builder, ?_⟩
  · intro file finished
    rw [walkFile_eq_foldl]
    exact (Builder.runs_file finished file).foldl_eq
  · intro registry finished before after e hcut
    exact (Builder.runs_files finished registry.files).accepts hcut

end SchemaTree.Outline
