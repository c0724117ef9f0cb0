import SchemaTree.Walk

/-!
# A walk is the run of its events

Walking with any visitor does the same as running the callbacks of `Registry.events` one after the
other, so that what a visitor does on a walk can be read off what it does on each event.
-/

namespace SchemaTree
open Schema

mutual

theorem walkMessage_eq_foldl (v : Visitor σ) :
    ∀ (depth : Nat) (m : Message) (s : σ),
      walkMessage v depth m s = (messageEvents depth m).foldl v.step s
  | depth, ⟨name, fullName, fields, messages, enums⟩, s => by
    simp only [walkMessage, messageEvents, List.cons_append, List.foldl_cons, List.foldl_append,
      List.foldl_nil, List.foldl_map, walkMessages_eq_foldl v (depth + 1) messages]
    rfl

theorem walkMessages_eq_foldl (v : Visitor σ) :
    ∀ (depth : Nat) (ms : List Message) (s : σ),
      walkMessages v depth ms s = (messagesEvents depth ms).foldl v.step s
  | _, [], _ => rfl
  | depth, m :: ms, s => by
    rw [walkMessages, messagesEvents, List.foldl_append, walkMessage_eq_foldl v depth m s,
      walkMessages_eq_foldl v depth ms]

end

theorem messagesEvents_isEmpty (depth : Nat) (ms : List Message) :
    (messagesEvents depth ms).isEmpty = ms.isEmpty := by
  cases ms with
  | nil => rfl
  | cons m ms =>
    cases m
    rfl

/-- A section does the same as its events if visiting the members does. -/
theorem walkSection_eq_foldl (v : Visitor σ) (title : Section) (members : List α)
    (visit : List α → σ → σ) (events : List Event) (hempty : events.isEmpty = members.isEmpty)
    (hvisit : ∀ s, visit members s = events.foldl v.step s) (s : σ) :
    walkSection v title members visit s = (sectionEvents title events).foldl v.step s := by
  unfold walkSection sectionEvents
  rw [hempty]
  split
  · rfl
  · rw [hvisit, List.foldl_cons]
    rfl

theorem walkFile_eq_foldl (v : Visitor σ) (file : File) (s : σ) :
    walkFile v file s = (fileEvents file).foldl v.step s := by
  have hmessages := walkSection_eq_foldl v .messages file.messages (walkMessages v 1)
    (messagesEvents 1 file.messages) (messagesEvents_isEmpty 1 file.messages)
    (walkMessages_eq_foldl v 1 file.messages)
  have henums := walkSection_eq_foldl v .enums file.enums
    (fun es s => es.foldl (fun s e => v.enum e 1 s) s) (file.enums.map fun e => .enum e 1)
    List.isEmpty_map (fun s => by rw [List.foldl_map]; rfl)
  have hservices := walkSection_eq_foldl v .services file.services
    (fun xs s => xs.foldl (fun s x => v.service x 1 s) s) (file.services.map fun x => .service x 1)
    List.isEmpty_map (fun s => by rw [List.foldl_map]; rfl)
  simp only [walkFile, hmessages, henums, hservices, fileEvents, List.cons_append, List.foldl_cons,
    List.foldl_append, List.foldl_nil]
  rfl

theorem walk_eq_foldl (v : Visitor σ) (registry : Registry) (s : σ) :
    walk v registry s = registry.events.foldl v.step s := by
  unfold walk Registry.events
  generalize registry.files = files
  induction files generalizing s with
  | nil => rfl
  | cons file files ih =>
    rw [List.foldl_cons, ih, List.flatMap_cons, List.foldl_append, walkFile_eq_foldl]

end SchemaTree
