import SchemaTree.Proofs.Tree.Item

/-!
# The titles in a text tree

The title of a file is told from every other line by its two ends, whatever the indent and the names are:
a line of a block ends in a brace or in a semicolon, and no other line begins with an equals sign.
-/

namespace SchemaTree.Tree
open Outline (Message)

/-! ### Lines that are titles -/

def titleFront : List Char := "======== Proto File: ".toList

def titleBack : List Char := " ========".toList

/-- The name in a line, if the line is a title. -/
def title? (line : String) : Option String :=
  let cs := line.toList
  if titleFront.isPrefixOf cs && titleBack.isSuffixOf cs then
    some (String.ofList ((cs.drop titleFront.length).take (cs.length - titleFront.length - titleBack.length)))
  else none

theorem title?_titleText (name : String) : title? (titleText name) = some name := by
  have htext : (titleText name).toList = titleFront ++ (name.toList ++ titleBack) := by
    rw [titleText_eq, String.toList_append, String.toList_append, List.append_assoc]
    rfl
  have hfront : titleFront.isPrefixOf (titleFront ++ (name.toList ++ titleBack)) = true := by simp
  have hback : titleBack.isSuffixOf (titleFront ++ (name.toList ++ titleBack)) = true := by
    rw [List.isSuffixOf_iff_suffix, ← List.append_assoc]
    exact List.suffix_append _ _
  have hlength : (titleFront ++ (name.toList ++ titleBack)).length - titleFront.length -
      titleBack.length = name.toList.length := by
    rw [List.length_append, List.length_append]
    omega
  rw [title?, htext, hfront, hback, hlength, List.drop_left, List.take_left, String.ofList_toList]
  rfl

theorem title?_of_head {line : String} (h : line.toList.head? ≠ some '=') : title? line = none := by
  have hfront : titleFront.isPrefixOf line.toList = false := by
    rw [Bool.eq_false_iff]
    intro hp
    obtain ⟨rest, hrest⟩ := List.isPrefixOf_iff_prefix.mp hp
    rw [← hrest] at h
    exact h rfl
  rw [title?, hfront, Bool.false_and]
  rfl

theorem title?_of_last {line : String} {cs : List Char} {c : Char} (hline : line.toList = cs ++ [c])
    (hc : c ≠ '=') : title? line = none := by
  have hback : titleBack.isSuffixOf line.toList = false := by
    rw [Bool.eq_false_iff]
    intro hp
    obtain ⟨before, hbefore⟩ := List.isSuffixOf_iff_suffix.mp hp
    have hlast := congrArg List.getLast? (hbefore.trans hline)
    rw [List.getLast?_append, List.getLast?_append] at hlast
    exact hc (Option.some.inj hlast).symm
  rw [title?, hback, Bool.and_false]
  rfl

/-! ### Items of blocks -/

/-- Whether an item is that of a line in a block, which may have a margin. -/
def Item.InBlock : Item → Prop
  | block .. | field .. | value .. | method .. | close => True
  | gap | title .. | label .. | heading .. | imported .. => False

theorem Item.InBlock.text_last {item : Item} (h : item.InBlock) :
    ∃ cs c, item.text.toList = cs ++ [c] ∧ c ≠ '=' := by
  cases item with
  | block word name =>
    refine ⟨(word ++ " " ++ name).toList ++ [' '], '\x7b', ?_, by decide⟩
    simp [Item.text]
  | field f =>
    refine ⟨(" [" ++ String.singleton f.marker ++ "]" ++ f.type ++ " " ++ f.name ++
      clauseText f.defaultClause).toList, ';', ?_, by decide⟩
    simp [Item.text]
  | value v =>
    refine ⟨("  " ++ v.name ++ " = " ++ Text.intText v.number.toInt).toList, ';', ?_, by decide⟩
    simp [Item.text, valueLine]
  | method m =>
    refine ⟨("  rpc " ++ m.name ++ " (" ++ endpoint m.clientStreaming m.input ++ ") returns (" ++
      endpoint m.serverStreaming m.output).toList ++ [')'], ';', ?_, by decide⟩
    simp [Item.text, methodLine]
  | close => exact ⟨[], '\x7d', rfl, by decide⟩
  | gap | title name | label word text | heading word | imported name => exact h.elim

theorem title?_line_inBlock (indent : String) {p : Nat × Item} (h : p.2.InBlock) :
    title? (line indent p) = none := by
  obtain ⟨cs, c, htext, hc⟩ := h.text_last
  have hline : (line indent p).toList = ((margin indent p.1).toList ++ cs) ++ [c] := by
    rw [line, String.toList_append, htext, List.append_assoc]
  exact title?_of_last hline hc

theorem blockItems_inBlock (depth : Nat) (word name : String) {members : List Item}
    (h : ∀ i ∈ members, i.InBlock) : ∀ p ∈ blockItems depth word name members, p.2.InBlock := by
  intro p hp
  simp only [blockItems, List.cons_append, List.mem_cons, List.mem_append, List.mem_map,
    List.not_mem_nil, or_false] at hp
  rcases hp with rfl | ⟨i, hi, rfl⟩ | rfl
  · trivial
  · exact h i hi
  · trivial

theorem enums_inBlock (depth : Nat) (es : List Schema.Enum) :
    ∀ p ∈ es.flatMap (enumItems depth), p.2.InBlock := by
  intro p hp
  obtain ⟨e, _, hp⟩ := List.mem_flatMap.mp hp
  have hvalues : ∀ i ∈ e.values.map Item.value, i.InBlock := by simp [Item.InBlock]
  exact blockItems_inBlock depth "enum" e.name hvalues p hp

theorem services_inBlock (depth : Nat) (ss : List Schema.Service) :
    ∀ p ∈ ss.flatMap (serviceItems depth), p.2.InBlock := by
  intro p hp
  obtain ⟨s, _, hp⟩ := List.mem_flatMap.mp hp
  have hmethods : ∀ i ∈ s.methods.map Item.method, i.InBlock := by simp [Item.InBlock]
  exact blockItems_inBlock depth "service" s.name hmethods p hp

mutual

theorem message_inBlock : ∀ (depth : Nat) (m : Message), ∀ p ∈ messageItems depth m, p.2.InBlock
  | depth, ⟨name, fields, messages, enums⟩ => by
    intro p hp
    simp only [messageItems, List.cons_append, List.mem_cons, List.mem_append, List.mem_map,
      List.not_mem_nil, or_false] at hp
    rcases hp with rfl | ((⟨f, _, rfl⟩ | hp) | hp) | rfl
    · trivial
    · trivial
    · exact messages_inBlock (depth + 1) messages p hp
    · exact enums_inBlock (depth + 1) enums p hp
    · trivial

theorem messages_inBlock : ∀ (depth : Nat) (ms : List Message),
    ∀ p ∈ messagesItems depth ms, p.2.InBlock
  | _, [], p, hp => by cases hp
  | depth, m :: ms, p, hp => by
    rw [messagesItems] at hp
    rcases List.mem_append.mp hp with hp | hp
    · exact message_inBlock depth m p hp
    · exact messages_inBlock depth ms p hp

end

/-! ### The titles of a registry -/

theorem titles_header (indent name dialect package : String) (imports : List String) :
    ((headerItems name dialect package imports).map (line indent)).filterMap title? = [name] := by
  have hlabels : title? (Item.label "Syntax" dialect).text = none ∧
      title? (Item.label "Package" package).text = none ∧ title? (Item.label "Path" name).text = none := by
    refine ⟨title?_of_head ?_, title?_of_head ?_, title?_of_head ?_⟩
    all_goals simp [Item.text]
  obtain ⟨hdialect, hpackage, hpath⟩ := hlabels
  have hgap : title? Item.gap.text = none := title?_of_head (by simp [Item.text])
  have htitle : title? (Item.title name).text = some name := title?_titleText name
  have himports : (((if imports.isEmpty then [] else (0, Item.heading "Imports") ::
      imports.map fun i => (0, Item.imported i)) : List (Nat × Item)).map (line indent)).filterMap title? = [] := by
    rw [List.filterMap_eq_nil_iff]
    intro l hl
    split at hl
    · cases hl
    · simp only [List.map_cons, List.map_map, List.mem_cons, List.mem_map, Function.comp_apply,
        line_zero] at hl
      rcases hl with rfl | ⟨i, _, rfl⟩
      · exact title?_of_head (by decide)
      · exact title?_of_head (by simp [Item.text])
  rw [headerItems, List.map_append, List.filterMap_append, himports]
  simp only [List.map_cons, line_zero, List.map_nil, List.filterMap_cons, hgap, htitle, hdialect,
    hpackage, hpath, List.filterMap_nil, List.append_nil]

theorem titles_section (indent : String) (title : Section) {members : List (Nat × Item)}
    (h : ∀ p ∈ members, p.2.InBlock) :
    ((sectionItems title members).map (line indent)).filterMap title? = [] := by
  rw [List.filterMap_eq_nil_iff]
  intro l hl
  unfold sectionItems at hl
  split at hl
  · cases hl
  · rw [List.map_cons, line_zero] at hl
    rcases List.mem_cons.mp hl with rfl | hl
    · apply title?_of_head
      cases title with
      | messages => decide
      | enums => decide
      | services => decide
    · obtain ⟨p, hp, rfl⟩ := List.mem_map.mp hl
      exact title?_line_inBlock indent (h p hp)

theorem titles_file (indent : String) (f : Outline.File) :
    ((fileItems f).map (line indent)).filterMap title? = [f.name] := by
  simp only [fileItems, List.map_append, List.filterMap_append, titles_header,
    titles_section indent .messages (messages_inBlock 1 f.messages),
    titles_section indent .enums (enums_inBlock 1 f.enums),
    titles_section indent .services (services_inBlock 1 f.services), List.append_nil]

/-- The titles of a text tree are the names of the files, one for each file and in their order. -/
theorem titles_lines (indent : String) (r : Registry) :
    (lines indent r).filterMap title? = r.files.map (·.name) := by
  rw [lines_eq_events, events_items, Outline.ofRegistry_eq_map, List.map_map, List.map_flatMap,
    List.filterMap_flatMap]
  simp only [titles_file, List.flatMap_map, Function.comp_apply, ← List.map_eq_flatMap]
  rfl

end SchemaTree.Tree
