import SchemaTree.Proofs.Outline.Recursion
import SchemaTree.Tree

/-!
# The text tree as a function of the outline

Each line of a text tree is a margin and an item. The items are those of the outline with its field
numbers erased, so two registries of the same outline but for the numbers have the same text tree.
-/

namespace SchemaTree

/-! ### Outlines without numbers -/

namespace Outline

def Field.unnumbered (f : Field) : Field := { f with number := 0 }

mutual

/-- A message with the numbers of all fields erased, also of those nested in it. -/
def Message.unnumbered : Message → Message
  | ⟨name, fields, messages, enums⟩ =>
    ⟨name, fields.map .unnumbered, Message.unnumberedAll messages, enums⟩

def Message.unnumberedAll : List Message → List Message
  | [] => []
  | m :: ms => Message.unnumbered m :: Message.unnumberedAll ms

end

def File.unnumbered (f : File) : File := { f with messages := Message.unnumberedAll f.messages }

end Outline

namespace Tree
open Outline (Message)
open Schema (Enum EnumValue Method Service)

/-! ### Items -/

/-- What a line shows after its margin. -/
inductive Item
  | gap
  | title (name : String)
  | label (word text : String)
  | heading (word : String)
  | imported (name : String)
  | block (word name : String)
  | field (field : Outline.Field)
  | value (value : EnumValue)
  | method (method : Method)
  | close

def titleText (name : String) : String := "======== Proto File: " ++ name ++ " ========"

theorem titleText_eq (name : String) :
    titleText name = "======== Proto File: " ++ name ++ " ========" := rfl

def clauseText : Option String → String
  | some text => " = " ++ text
  | none => ""

def Item.text : Item → String
  | gap => ""
  | title name => titleText name
  | label word text => word ++ ": " ++ text
  | heading word => word ++ ":"
  | imported name => "  - " ++ name
  | block word name => word ++ " " ++ name ++ " \x7b"
  | field f => " [" ++ String.singleton f.marker ++ "]" ++ f.type ++ " " ++ f.name ++
      clauseText f.defaultClause ++ ";"
  | value v => valueLine v
  | method m => methodLine m
  | close => "\x7d"

def line (indent : String) (p : Nat × Item) : String := margin indent p.1 ++ p.2.text

/-! ### Items of events -/

def headerItems (name dialect package : String) (imports : List String) : List (Nat × Item) :=
  [(0, .gap), (0, .title name), (0, .label "Syntax" dialect), (0, .label "Package" package),
    (0, .label "Path" name)] ++
  if imports.isEmpty then [] else (0, .heading "Imports") :: imports.map fun i => (0, .imported i)

def blockItems (depth : Nat) (word name : String) (members : List Item) : List (Nat × Item) :=
  (depth, .block word name) :: members.map (depth, ·) ++ [(depth, .close)]

def enumItems (depth : Nat) (e : Enum) : List (Nat × Item) :=
  blockItems depth "enum" e.name (e.values.map .value)

def serviceItems (depth : Nat) (s : Service) : List (Nat × Item) :=
  blockItems depth "service" s.name (s.methods.map .method)

/-- The items of an event, each with its depth. -/
def eventItems : Event → List (Nat × Item)
  | .beginFile f => headerItems f.name f.dialect.token f.package f.imports
  | .endFile _ => []
  | .beginSection title => [(0, .heading title.title)]
  | .beginMessage m depth => [(depth, .block "message" m.name)]
  | .field f depth => [(depth, .field (Outline.Field.of f).unnumbered)]
  | .endMessage _ depth => [(depth, .close)]
  | .enum e depth => enumItems depth e
  | .service s depth => serviceItems depth s

theorem line_zero (indent : String) (item : Item) : line indent (0, item) = item.text := by
  simp only [line, margin, List.replicate_zero]
  exact String.empty_append

theorem map_line_header (indent : String) (f : Schema.File) :
    (headerItems f.name f.dialect.token f.package f.imports).map (line indent) = header f := by
  simp only [headerItems, header, List.map_append, List.map_cons, List.map_nil, line_zero]
  congr 1
  split
  · rfl
  · simp only [List.map_cons, List.map_map, Function.comp_def, line_zero]
    rfl

theorem map_line_block (indent : String) (depth : Nat) (word name : String) (members : List Item) :
    (blockItems depth word name members).map (line indent) =
      (margin indent depth ++ (Item.block word name).text) ::
        members.map (fun i => margin indent depth ++ i.text) ++ [margin indent depth ++ "\x7d"] := by
  simp only [blockItems, List.map_append, List.map_cons, List.map_map, Function.comp_def, List.map_nil]
  rfl

theorem text_message (name : String) :
    (Item.block "message" name).text = "message " ++ name ++ " \x7b" := by
  simp only [Item.text, String.reduceAppend]

theorem text_enum (name : String) : (Item.block "enum" name).text = "enum " ++ name ++ " \x7b" := by
  simp only [Item.text, String.reduceAppend]

theorem text_service (name : String) :
    (Item.block "service" name).text = "service " ++ name ++ " \x7b" := by
  simp only [Item.text, String.reduceAppend]

theorem text_field (f : Schema.Field) :
    (Item.field (Outline.Field.of f).unnumbered).text = fieldLine f := by
  simp only [Item.text, fieldLine, Outline.Field.unnumbered, Outline.Field.of]
  cases f.defaultClause? with
  | none => rfl
  | some text => rfl

/-- The lister appends the lines of the items of each event. -/
theorem lister_step (indent : String) (lines : Array String) (e : Event) :
    ((lister indent).step lines e).toList = lines.toList ++ (eventItems e).map (line indent) := by
  cases e with
  | beginFile f =>
    rw [eventItems, map_line_header]
    simp only [Visitor.step, lister, Array.appendList_eq_append, Array.toList_appendList]
  | endFile f =>
    show lines.toList = lines.toList ++ []
    rw [List.append_nil]
  | beginSection title =>
    simp only [Visitor.step, lister, Array.toList_push, eventItems, List.map_cons, line_zero]
    rfl
  | beginMessage m depth =>
    simp only [Visitor.step, lister, Array.toList_push, eventItems, List.map_cons, line,
      text_message, String.append_assoc, List.map_nil]
  | field f depth =>
    simp only [Visitor.step, lister, Array.toList_push, eventItems, List.map_cons, line, text_field,
      List.map_nil]
  | endMessage m depth =>
    simp only [Visitor.step, lister, Array.toList_push, eventItems, List.map_cons, line, Item.text,
      List.map_nil]
  | enum e depth =>
    rw [eventItems, enumItems, map_line_block, text_enum]
    simp only [Visitor.step, lister, Array.toList_push, Array.appendList_eq_append,
      Array.toList_appendList, List.map_map, Function.comp_def, Item.text, List.append_assoc,
      List.cons_append, List.nil_append, String.append_assoc]
  | service s depth =>
    rw [eventItems, serviceItems, map_line_block, text_service]
    simp only [Visitor.step, lister, Array.toList_push, Array.appendList_eq_append,
      Array.toList_appendList, List.map_map, Function.comp_def, Item.text, List.append_assoc,
      List.cons_append, List.nil_append, String.append_assoc]

theorem lister_foldl (indent : String) (events : List Event) (start : Array String) :
    (events.foldl (lister indent).step start).toList =
      start.toList ++ (events.flatMap eventItems).map (line indent) := by
  induction events generalizing start with
  | nil => exact (List.append_nil _).symm
  | cons e events ih =>
    rw [List.foldl_cons, ih, lister_step, List.flatMap_cons, List.map_append, List.append_assoc]

theorem lines_eq_events (indent : String) (registry : Registry) :
    lines indent registry = (registry.events.flatMap eventItems).map (line indent) := by
  rw [lines, walk_eq_foldl, lister_foldl]
  rfl

/-! ### Items of outlines -/

mutual

def messageItems (depth : Nat) : Message → List (Nat × Item)
  | ⟨name, fields, messages, enums⟩ =>
    (depth, .block "message" name) :: (fields.map fun f => (depth, .field f)) ++
      messagesItems (depth + 1) messages ++ enums.flatMap (enumItems (depth + 1)) ++
      [(depth, .close)]

def messagesItems (depth : Nat) : List Message → List (Nat × Item)
  | [] => []
  | m :: ms => messageItems depth m ++ messagesItems depth ms

end

/-- The items of a section: none if it has no members. -/
def sectionItems (title : Section) (members : List (Nat × Item)) : List (Nat × Item) :=
  if members.isEmpty then [] else (0, .heading title.title) :: members

def fileItems (f : Outline.File) : List (Nat × Item) :=
  headerItems f.name f.dialect f.package f.imports ++
    sectionItems .messages (messagesItems 1 f.messages) ++
    sectionItems .enums (f.enums.flatMap (enumItems 1)) ++
    sectionItems .services (f.services.flatMap (serviceItems 1))

mutual

theorem messageEvents_items : ∀ (depth : Nat) (m : Schema.Message),
    (messageEvents depth m).flatMap eventItems = messageItems depth (Message.of m).unnumbered
  | depth, ⟨name, fullName, fields, messages, enums⟩ => by
    have hmessages := messagesEvents_items (depth + 1) messages
    simp only [messageEvents, List.flatMap_append, List.flatMap_cons, List.flatMap_map,
      List.cons_append, eventItems, List.flatMap_nil, hmessages, Message.of, Message.unnumbered,
      messageItems, List.map_map, Function.comp_def, List.nil_append, List.append_nil,
      ← List.map_eq_flatMap]

theorem messagesEvents_items : ∀ (depth : Nat) (ms : List Schema.Message),
    (messagesEvents depth ms).flatMap eventItems =
      messagesItems depth (Message.unnumberedAll (Message.ofAll ms))
  | _, [] => rfl
  | depth, m :: ms => by
    rw [messagesEvents, List.flatMap_append, messageEvents_items depth m, messagesEvents_items depth ms]
    rfl

end

theorem sectionEvents_items (title : Section) (members : List Event)
    (h : (members.flatMap eventItems).isEmpty = members.isEmpty) :
    (sectionEvents title members).flatMap eventItems =
      sectionItems title (members.flatMap eventItems) := by
  unfold sectionEvents sectionItems
  rw [h]
  split
  · rfl
  · rfl

theorem flatMap_isEmpty {f : α → List β} (hf : ∀ x, (f x).isEmpty = false) (xs : List α) :
    (xs.flatMap f).isEmpty = xs.isEmpty := by
  cases xs with
  | nil => rfl
  | cons x xs =>
    have hx := hf x
    cases h : f x with
    | nil =>
      rw [h] at hx
      cases hx
    | cons y ys =>
      rw [List.flatMap_cons, h]
      rfl

theorem fileEvents_items (file : Schema.File) :
    (fileEvents file).flatMap eventItems = fileItems (Outline.File.of file).unnumbered := by
  have hmessages : ((messagesEvents 1 file.messages).flatMap eventItems).isEmpty =
      (messagesEvents 1 file.messages).isEmpty := by
    rw [messagesEvents_items, messagesEvents_isEmpty]
    cases file.messages with
    | nil => rfl
    | cons m ms =>
      cases m
      rfl
  have henums : ((file.enums.map fun e => Event.enum e 1).flatMap eventItems).isEmpty =
      (file.enums.map fun e => Event.enum e 1).isEmpty := by
    rw [List.flatMap_map, List.isEmpty_map]
    exact flatMap_isEmpty (fun _ => rfl) _
  have hservices : ((file.services.map fun x => Event.service x 1).flatMap eventItems).isEmpty =
      (file.services.map fun x => Event.service x 1).isEmpty := by
    rw [List.flatMap_map, List.isEmpty_map]
    exact flatMap_isEmpty (fun _ => rfl) _
  simp only [fileEvents, List.flatMap_append, List.flatMap_cons, List.cons_append,
    sectionEvents_items _ _ hmessages, sectionEvents_items _ _ henums,
    sectionEvents_items _ _ hservices, messagesEvents_items, List.flatMap_map, eventItems,
    List.flatMap_nil, List.append_nil, fileItems, Outline.File.of, Outline.File.unnumbered,
    List.append_assoc]

/-- The items of a registry are those of its outlines without the numbers of fields. -/
theorem events_items (registry : Registry) : registry.events.flatMap eventItems =
    ((Outline.ofRegistry registry).map .unnumbered).flatMap fileItems := by
  rw [Outline.ofRegistry_eq_map, Registry.events, List.flatMap_assoc, List.map_map,
    List.flatMap_map]
  simp only [fileEvents_items, Function.comp_def]

end Tree
end SchemaTree
