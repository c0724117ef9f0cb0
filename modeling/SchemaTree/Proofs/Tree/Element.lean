import SchemaTree.Proofs.Loader.Mirror
import SchemaTree.Proofs.Tree.Item

/-!
# The elements of a file

The messages, fields, enums, values, services and methods of a file, each at its depth. A walk over a
file that mirrors a declaration calls back for exactly the declared elements, values and methods with
the enums and services that they belong to, and the text tree has exactly one line for each.
-/

namespace SchemaTree

/-- A part of a file that is shown, at its depth. -/
inductive Element
  | message (depth : Nat) (name : String)
  | field (depth : Nat) (name : String) (number : Int)
  | enum (depth : Nat) (name : String)
  | value (depth : Nat) (name : String) (number : Int)
  | service (depth : Nat) (name : String)
  | method (depth : Nat) (name : String) (clientStreaming serverStreaming : Bool)

/-- An element without what no line shows: the number of a field. -/
def Element.unnumbered : Element → Element
  | field depth name _ => field depth name 0
  | e => e

def Signature.elements (depth : Nat) (s : Signature) : List Element :=
  .service depth s.name :: s.methods.map fun m => .method depth m.1 m.2.1 m.2.2

/-! ### Declared elements -/

namespace Descriptor

def enumElements (depth : Nat) (e : Enum) : List Element :=
  .enum depth e.name :: e.layout.map fun p => .value depth p.1 p.2

mutual

/-- The elements of a message and of all messages nested in it. -/
def messageElements (depth : Nat) : Message → List Element
  | ⟨name, fields, _, messages, enums, _, _, _, _, _⟩ =>
    .message depth name :: (fields.map fun x => Element.field depth x.name x.number) ++
      messagesElements (depth + 1) messages ++ enums.flatMap (enumElements (depth + 1))

def messagesElements (depth : Nat) : List Message → List Element
  | [] => []
  | m :: ms => messageElements depth m ++ messagesElements depth ms

end

def File.elements (f : File) : List Element :=
  messagesElements 1 f.messages ++ f.enums.flatMap (enumElements 1) ++
    f.services.flatMap fun s => s.signature.elements 1

end Descriptor

/-! ### Elements that are called back for -/

def Event.elements : Event → List Element
  | .beginMessage m depth => [.message depth m.name]
  | .field x depth => [.field depth x.name x.number.toNat]
  | .enum e depth => .enum depth e.name :: e.layout.map fun p => .value depth p.1 p.2
  | .service s depth => s.signature.elements depth
  | .beginFile _ | .endFile _ | .beginSection _ | .endMessage _ _ => []

theorem enums_elements {ds : List Descriptor.Enum} {es : List Schema.Enum} (depth : Nat)
    (h : List.Forall₂ EnumMirrors ds es) :
    ((es.map fun e => Event.enum e depth).flatMap Event.elements).Perm
      (ds.flatMap (Descriptor.enumElements depth)) := by
  induction h with
  | nil => exact .nil
  | @cons d e _ _ hde _ ih =>
    have hvalues := hde.values.map fun p => Element.value depth p.1 p.2
    have hfirst : (Event.elements (.enum e depth)).Perm (Descriptor.enumElements depth d) := by
      rw [Event.elements, Descriptor.enumElements, hde.name]
      exact hvalues.cons _
    exact hfirst.append ih

mutual

theorem message_elements : ∀ (depth : Nat) (d : Descriptor.Message) (s : Schema.Message),
    MessageMirrors d s → ((messageEvents depth s).flatMap Event.elements).Perm
      (Descriptor.messageElements depth d)
  | depth, ⟨name, fields, _, messages, enums, _, _, _, _, _⟩,
      ⟨shownName, fullName, shownFields, shownMessages, shownEnums⟩, h => by
    obtain ⟨hname, hfields, hmessages, henums⟩ := h
    have hf := hfields.map fun p => Element.field depth p.1 p.2
    have hm := messages_elements (depth + 1) messages shownMessages hmessages
    have he := enums_elements (depth + 1) henums
    have hparts := ((hf.append hm).append he).cons (Element.message depth name)
    have hshown : shownName = name := hname
    rw [hshown]
    simpa only [messageEvents, Descriptor.messageElements, List.flatMap_append, List.flatMap_cons,
      List.cons_append, List.flatMap_map, Event.elements, List.flatMap_nil, List.append_nil,
      List.nil_append, Schema.Message.layout, Descriptor.Message.layout, List.map_map,
      Function.comp_def, ← List.map_eq_flatMap] using hparts

theorem messages_elements : ∀ (depth : Nat) (ds : List Descriptor.Message) (ss : List Schema.Message),
    List.Forall₂ MessageMirrors ds ss → ((messagesEvents depth ss).flatMap Event.elements).Perm
      (Descriptor.messagesElements depth ds)
  | _, [], ss, h => by
    cases h
    exact .nil
  | depth, d :: ds, ss, h => by
    cases h with
    | cons hd hds =>
      rw [messagesEvents, Descriptor.messagesElements, List.flatMap_append]
      exact (message_elements depth d _ hd).append (messages_elements depth ds _ hds)

end

theorem section_elements (title : Section) (members : List Event) :
    (sectionEvents title members).flatMap Event.elements = members.flatMap Event.elements := by
  unfold sectionEvents
  split
  · rename_i hempty
    rw [List.isEmpty_iff.mp hempty]
  · rfl

theorem file_elements {d : Descriptor.File} {s : Schema.File} (h : FileMirrors d s) :
    ((fileEvents s).flatMap Event.elements).Perm d.elements := by
  have hm := messages_elements 1 _ _ h.messages
  have he := enums_elements 1 h.enums
  have hs : (s.services.map fun x => Event.service x 1).flatMap Event.elements =
      d.services.flatMap fun x => x.signature.elements 1 := by
    have hsame := congrArg (List.flatMap (Signature.elements 1)) h.services
    simpa only [List.flatMap_map, Event.elements] using hsame
  simp only [fileEvents, List.flatMap_append, List.flatMap_cons, List.cons_append, section_elements,
    Event.elements, List.flatMap_nil, List.append_nil, List.nil_append]
  rw [hs]
  exact (hm.append he).append_right _

/-! ### Elements that are shown -/

namespace Tree

/-- The element that a line shows, if it is that of an element. -/
def element? : Nat × Item → Option Element
  | (depth, .block word name) =>
    if word = "message" then some (.message depth name)
    else if word = "enum" then some (.enum depth name)
    else some (.service depth name)
  | (depth, .field x) => some (.field depth x.name 0)
  | (depth, .value v) => some (.value depth v.name v.number.toInt)
  | (depth, .method m) => some (.method depth m.name m.clientStreaming m.serverStreaming)
  | (_, .gap) | (_, .title _) | (_, .label _ _) | (_, .heading _) | (_, .imported _) | (_, .close) =>
    none

/-- Of a block, the line that opens it shows an element, and so do the lines of its members. -/
theorem block_elements {depth : Nat} {word name : String} {first : Element}
    (hfirst : element? (depth, .block word name) = some first) {members : List α} {item : α → Item}
    {element : α → Element} (hmembers : ∀ x, element? (depth, item x) = some (element x)) :
    (blockItems depth word name (members.map item)).filterMap element? =
      first :: members.map element := by
  have hinner : (members.map item).filterMap (fun i => element? (depth, i)) =
      members.map element := by
    rw [List.filterMap_map, ← List.filterMap_eq_map]
    exact congrArg (fun f => members.filterMap f) (funext hmembers)
  rw [blockItems, List.cons_append, List.filterMap_cons_some hfirst, List.filterMap_append,
    List.filterMap_map, Function.comp_def, hinner]
  exact congrArg (first :: ·) (List.append_nil _)

theorem event_lines (e : Event) :
    (eventItems e).filterMap element? = e.elements.map Element.unnumbered := by
  cases e with
  | beginFile f =>
    simp only [eventItems, headerItems]
    split
    · rfl
    · simp only [List.cons_append, List.filterMap_cons, element?, List.nil_append,
        List.filterMap_map, Function.comp_def, List.filterMap_none]
      rfl
  | endFile f => rfl
  | beginSection title => rfl
  | beginMessage m depth => rfl
  | field x depth => rfl
  | endMessage m depth => rfl
  | enum e depth =>
    have hlines : (enumItems depth e).filterMap element? = Element.enum depth e.name ::
        e.values.map fun v => .value depth v.name v.number.toInt :=
      block_elements (by simp [element?]) fun v => rfl
    rw [eventItems, hlines]
    simp only [Event.elements, Schema.Enum.layout, List.map_cons, List.map_map, Function.comp_def,
      Element.unnumbered]
  | service s depth =>
    have hlines : (serviceItems depth s).filterMap element? = Element.service depth s.name ::
        s.methods.map fun m => .method depth m.name m.clientStreaming m.serverStreaming :=
      block_elements (by simp [element?]) fun m => rfl
    rw [eventItems, hlines]
    simp only [Event.elements, Signature.elements, Schema.Service.signature, List.map_cons,
      List.map_map, Function.comp_def, Element.unnumbered]

/-- The lines of a text tree show the elements that a walk calls back for, in the same order. -/
theorem events_lines (events : List Event) :
    (events.flatMap eventItems).filterMap element? =
      (events.flatMap Event.elements).map Element.unnumbered := by
  rw [List.filterMap_flatMap, List.map_flatMap]
  simp only [event_lines]

theorem fileLines_eq_items (indent : String) (file : Schema.File) :
    fileLines indent file = ((fileEvents file).flatMap eventItems).map (line indent) := by
  rw [fileLines, walkFile_eq_foldl, lister_foldl]
  rfl

end Tree
end SchemaTree
