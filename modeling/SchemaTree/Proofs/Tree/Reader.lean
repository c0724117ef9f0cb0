import SchemaTree.Proofs.Text.Integer
import SchemaTree.Proofs.Tree.Item
import SchemaTree.Token.Basic

/-!
# Reading a text tree back

If the names in a text tree are words and the indent consists of blanks, each line gives away its item
without any regard to its margin or to the lines around it: by the sign that it begins with after its
blanks, or by the sign after its first word. Blocks are then put together by their closing lines.
-/

namespace SchemaTree.Tree
open Schema (Enum EnumValue Method Service)
open Token (continuesWord)

/-! ### Words -/

/-- Whether a name is made up of letters, digits and underscores, and not empty. -/
def IsWord (name : String) : Prop :=
  name ≠ "" ∧ name.toList.all continuesWord = true

instance : DecidablePred IsWord := fun name =>
  inferInstanceAs (Decidable (name ≠ "" ∧ name.toList.all continuesWord = true))

def readWord (cs : List Char) : String × List Char :=
  (String.ofList (cs.takeWhile continuesWord), cs.dropWhile continuesWord)

theorem readWord_append {name : String} (h : IsWord name) {c : Char}
    (hc : continuesWord c = false) (rest : List Char) :
    readWord (name.toList ++ c :: rest) = (name, c :: rest) := by
  have hstop : ¬continuesWord c = true := by simp [hc]
  have hword := List.all_eq_true.mp h.2
  rw [readWord, List.takeWhile_append_of_pos hword, List.dropWhile_append_of_pos hword,
    List.takeWhile_cons_of_neg hstop, List.dropWhile_cons_of_neg hstop, List.append_nil,
    String.ofList_toList]

theorem IsWord.exists_cons {name : String} (h : IsWord name) :
    ∃ c cs, name.toList = c :: cs ∧ continuesWord c = true := by
  cases hcs : name.toList with
  | nil => exact absurd (String.toList_eq_nil_iff.mp hcs) h.1
  | cons c cs =>
    have hc := List.all_eq_true.mp h.2 c
    rw [hcs] at hc
    exact ⟨c, cs, rfl, hc List.mem_cons_self⟩

/-! ### Parts of a line -/

def readClause : List Char → Option String
  | ' ' :: '=' :: ' ' :: cs => some (String.ofList cs.dropLast)
  | _ => none

theorem readClause_text (clause : Option String) :
    readClause ((clauseText clause).toList ++ [';']) = clause := by
  cases clause with
  | none => rfl
  | some text =>
    have htext : (clauseText (some text)).toList ++ [';'] =
        ' ' :: '=' :: ' ' :: (text.toList ++ [';']) := by
      rw [clauseText, String.toList_append, List.append_assoc]
      rfl
    rw [htext]
    show some (String.ofList (text.toList ++ [';']).dropLast) = some text
    rw [List.dropLast_concat, String.ofList_toList]

/-- Reads the message of a method with the word for a stream before it. -/
def readEndpoint (cs : List Char) : Bool × String × List Char :=
  match readWord cs with
  | (_, ' ' :: cs) => (true, readWord cs)
  | (name, cs) => (false, name, cs)

theorem readEndpoint_text (streaming : Bool) {name : String} (h : IsWord name) (rest : List Char) :
    readEndpoint ((endpoint streaming name).toList ++ ')' :: rest) =
      (streaming, name, ')' :: rest) := by
  have hname := readWord_append h (c := ')') (by decide) rest
  cases streaming with
  | false =>
    rw [show endpoint false name = name from rfl, readEndpoint, hname]
    rfl
  | true =>
    have htext : (endpoint true name).toList ++ ')' :: rest =
        "stream".toList ++ ' ' :: (name.toList ++ ')' :: rest) := by
      rw [endpoint, if_pos rfl, String.toList_append, List.append_assoc]
      rfl
    have hstream : IsWord "stream" := by decide
    rw [htext, readEndpoint, readWord_append hstream (by decide)]
    show (true, readWord (name.toList ++ ')' :: rest)) = _
    rw [hname]

/-- Reads a method, or else the opening of a block, after its first word and the name. -/
def readMember (word : String) : String × List Char → Item
  | (name, ' ' :: '(' :: cs) =>
    let (clientStreaming, input, cs) := readEndpoint cs
    let (serverStreaming, output, _) := readEndpoint (cs.drop 11)
    .method ⟨name, input, output, clientStreaming, serverStreaming⟩
  | (name, _) => .block word name

def readNamed (word : String) : List Char → Option Item
  | ':' :: [] => some (.heading word)
  | ':' :: _ :: text => some (.label word (String.ofList text))
  | ' ' :: c :: cs =>
    if c = '=' then
      (Text.readInt? (String.ofList (cs.drop 1).dropLast)).map fun n => .value ⟨word, .ofInt n⟩
    else some (readMember word (readWord (c :: cs)))
  | _ => none

/-- Reads the rest of a line after the sign that it begins with. -/
def readMarked : Char → List Char → Option Item
  | '=', cs => some (.title (String.ofList ((cs.drop 20).take (cs.length - 29))))
  | '-', cs => some (.imported (String.ofList (cs.drop 1)))
  | '[', marker :: _ :: cs =>
    let (type, cs) := readWord cs
    let (name, cs) := readWord (cs.drop 1)
    some (.field ⟨name, 0, type, marker, readClause cs⟩)
  | '\x7d', _ => some .close
  | _, _ => none

def readLine? (line : String) : Option Item :=
  match line.toList.dropWhile (· == ' ') with
  | [] => some .gap
  | c :: cs =>
    if continuesWord c then
      let (word, rest) := readWord (c :: cs)
      readNamed word rest
    else readMarked c cs

/-! ### Lines -/

theorem blanks_append {blanks : List Char} (h : ∀ b ∈ blanks, b = ' ') (more : List Char)
    (hmore : ∀ b ∈ more, b = ' ') : ∀ b ∈ blanks ++ more, b = ' ' := by
  intro b hb
  rcases List.mem_append.mp hb with hb | hb
  · exact h b hb
  · exact hmore b hb

theorem dropWhile_blanks {blanks : List Char} (h : ∀ b ∈ blanks, b = ' ') (cs : List Char) :
    (blanks ++ cs).dropWhile (· == ' ') = cs.dropWhile (· == ' ') :=
  List.dropWhile_append_of_pos fun b hb => beq_iff_eq.mpr (h b hb)

theorem readLine?_named {blanks : List Char} (hb : ∀ b ∈ blanks, b = ' ') {word : String}
    (hw : IsWord word) {c : Char} (hc : continuesWord c = false) {rest : List Char} {line : String}
    (hline : line.toList = blanks ++ (word.toList ++ c :: rest)) :
    readLine? line = readNamed word (c :: rest) := by
  obtain ⟨d, ds, hword, hd⟩ := hw.exists_cons
  have hblank : ¬(d == ' ') = true := by
    intro h
    rw [beq_iff_eq.mp h] at hd
    exact absurd hd (by decide)
  have hdrop : line.toList.dropWhile (· == ' ') = d :: (ds ++ c :: rest) := by
    rw [hline, dropWhile_blanks hb, hword, List.cons_append,
      List.dropWhile_cons_of_neg (p := (· == ' ')) hblank]
  have hread := readWord_append hw hc rest
  rw [hword, List.cons_append] at hread
  rw [readLine?, hdrop]
  dsimp only
  rw [if_pos hd, hread]

theorem readLine?_marked {blanks : List Char} (hb : ∀ b ∈ blanks, b = ' ') {c : Char}
    (hc : continuesWord c = false) (hblank : c ≠ ' ') {rest : List Char} {line : String}
    (hline : line.toList = blanks ++ c :: rest) : readLine? line = readMarked c rest := by
  have hdrop : line.toList.dropWhile (· == ' ') = c :: rest := by
    rw [hline, dropWhile_blanks hb, List.dropWhile_cons_of_neg (by simpa using hblank)]
  rw [readLine?, hdrop]
  dsimp only
  rw [if_neg (by simp [hc])]

/-- Whether the names in an item are words, and the number of a field is erased. -/
def Item.Plain : Item → Prop
  | label word _ => IsWord word
  | heading word => IsWord word
  | block word name => IsWord word ∧ IsWord name
  | field f => f.number = 0 ∧ IsWord f.type ∧ IsWord f.name
  | value v => IsWord v.name
  | method m => IsWord m.name ∧ IsWord m.input ∧ IsWord m.output
  | _ => True

theorem readNamed_member {word name : String} (hname : IsWord name) {c : Char}
    (hc : continuesWord c = false) (rest : List Char) :
    readNamed word (' ' :: (name.toList ++ c :: rest)) = some (readMember word (name, c :: rest)) := by
  have hread := readWord_append hname hc rest
  obtain ⟨d, ds, hcs, hd⟩ := hname.exists_cons
  rw [hcs, List.cons_append] at hread ⊢
  have hne : d ≠ '=' := by
    intro h
    rw [h] at hd
    exact absurd hd (by decide)
  show (if d = '=' then _ else some (readMember word (readWord (d :: (ds ++ c :: rest))))) = _
  rw [if_neg hne, hread]

theorem readLine?_title {blanks : List Char} (hb : ∀ b ∈ blanks, b = ' ') (name : String)
    {line : String} (hline : line.toList = blanks ++ (Item.title name).text.toList) :
    readLine? line = some (.title name) := by
  have htext : (Item.title name).text.toList =
      '=' :: ("======= Proto File: ".toList ++ (name.toList ++ " ========".toList)) := by
    rw [Item.text, titleText_eq, String.toList_append, String.toList_append, List.append_assoc]
    rfl
  rw [htext] at hline
  rw [readLine?_marked hb (by decide) (by decide) hline]
  show some (Item.title (String.ofList _)) = _
  have hlength : ("======= Proto File: ".toList ++ (name.toList ++ " ========".toList)).length - 29 =
      name.toList.length := by
    have hbefore : "======= Proto File: ".toList.length = 20 := by rfl
    have hafter : " ========".toList.length = 9 := by rfl
    rw [List.length_append, List.length_append, hbefore, hafter]
    omega
  rw [hlength, List.drop_left' (by rfl), List.take_left' rfl, String.ofList_toList]

theorem readLine?_value {blanks : List Char} (hb : ∀ b ∈ blanks, b = ' ') {v : EnumValue}
    (hv : IsWord v.name) {line : String} (hline : line.toList = blanks ++ (valueLine v).toList) :
    readLine? line = some (.value v) := by
  have htext : blanks ++ (valueLine v).toList = (blanks ++ [' ', ' ']) ++
      (v.name.toList ++ ' ' :: '=' :: ' ' :: ((Text.intText v.number.toInt).toList ++ [';'])) := by
    simp [valueLine]
  have hblanks := blanks_append hb [' ', ' '] (by simp)
  rw [htext] at hline
  rw [readLine?_named hblanks hv (by decide) hline]
  simp only [readNamed, if_true, List.drop_one, List.tail_cons, List.dropLast_concat,
    String.ofList_toList, Text.readInt?_intText, Option.map_some, Int32.ofInt_toInt]

theorem readLine?_method {blanks : List Char} (hb : ∀ b ∈ blanks, b = ' ') {m : Method}
    (hm : IsWord m.name ∧ IsWord m.input ∧ IsWord m.output) {line : String}
    (hline : line.toList = blanks ++ (methodLine m).toList) :
    readLine? line = some (.method m) := by
  obtain ⟨hname, hinput, houtput⟩ := hm
  have htext : blanks ++ (methodLine m).toList = (blanks ++ [' ', ' ']) ++ ("rpc".toList ++
      ' ' :: (m.name.toList ++ ' ' :: '(' :: ((endpoint m.clientStreaming m.input).toList ++ ')' ::
        (" returns (".toList ++ ((endpoint m.serverStreaming m.output).toList ++ [')', ';']))))) := by
    simp [methodLine]
  have hblanks := blanks_append hb [' ', ' '] (by simp)
  have hrpc : IsWord "rpc" := by decide
  rw [htext] at hline
  rw [readLine?_named hblanks hrpc (by decide) hline, readNamed_member hname (by decide), readMember,
    readEndpoint_text _ hinput]
  have hdrop (cs : List Char) : (')' :: (" returns (".toList ++ cs)).drop 11 = cs :=
    @List.drop_left' _ (')' :: " returns (".toList) cs 11 rfl
  simp only [hdrop, readEndpoint_text _ houtput]

theorem clauseText_cons (clause : Option String) : ∃ c rest,
    (clauseText clause).toList ++ [';'] = c :: rest ∧ continuesWord c = false := by
  cases clause with
  | none => exact ⟨';', [], rfl, by decide⟩
  | some text =>
    refine ⟨' ', '=' :: ' ' :: (text.toList ++ [';']), ?_, by decide⟩
    simp [clauseText]

theorem readLine?_field {blanks : List Char} (hb : ∀ b ∈ blanks, b = ' ') {f : Outline.Field}
    (hf : f.number = 0 ∧ IsWord f.type ∧ IsWord f.name) {line : String}
    (hline : line.toList = blanks ++ (Item.field f).text.toList) :
    readLine? line = some (.field f) := by
  obtain ⟨hnumber, htype, hname⟩ := hf
  have htext : blanks ++ (Item.field f).text.toList = (blanks ++ [' ']) ++
      ('[' :: f.marker :: ']' :: (f.type.toList ++
        ' ' :: (f.name.toList ++ ((clauseText f.defaultClause).toList ++ [';'])))) := by
    simp [Item.text]
  obtain ⟨c, rest, hclause, hc⟩ := clauseText_cons f.defaultClause
  have hread := readClause_text f.defaultClause
  rw [hclause] at hread htext
  rw [htext] at hline
  rw [readLine?_marked (blanks_append hb [' '] (by simp)) (by decide) (by decide) hline]
  have hfirst := readWord_append htype (c := ' ') (by decide) (f.name.toList ++ c :: rest)
  have hsecond := readWord_append hname hc rest
  simp only [readMarked, hfirst, List.drop_one, List.tail_cons, hsecond, hread]
  rw [← hnumber]

theorem readLine?_imported {blanks : List Char} (hb : ∀ b ∈ blanks, b = ' ') (name : String)
    {line : String} (hline : line.toList = blanks ++ (Item.imported name).text.toList) :
    readLine? line = some (.imported name) := by
  have htext : blanks ++ (Item.imported name).text.toList =
      (blanks ++ [' ', ' ']) ++ '-' :: ' ' :: name.toList := by
    simp [Item.text]
  rw [htext] at hline
  rw [readLine?_marked (blanks_append hb [' ', ' '] (by simp)) (by decide) (by decide) hline]
  show some (Item.imported (String.ofList name.toList)) = _
  rw [String.ofList_toList]

/-- The item of a line is read from it whatever blanks stand before it. -/
theorem readLine?_text {blanks : List Char} (hb : ∀ b ∈ blanks, b = ' ') {item : Item}
    (h : item.Plain) {line : String} (hline : line.toList = blanks ++ item.text.toList) :
    readLine? line = some item := by
  cases item with
  | gap =>
    have hblank : line.toList.dropWhile (· == ' ') = [] := by
      rw [hline]
      exact dropWhile_blanks hb []
    rw [readLine?, hblank]
  | title name => exact readLine?_title hb name hline
  | label word text =>
    have htext : (Item.label word text).text.toList = word.toList ++ ':' :: ' ' :: text.toList := by
      simp [Item.text]
    rw [htext] at hline
    rw [readLine?_named hb h (by decide) hline]
    show some (Item.label word (String.ofList text.toList)) = _
    rw [String.ofList_toList]
  | heading word =>
    have htext : (Item.heading word).text.toList = word.toList ++ [':'] := by
      simp [Item.text]
    rw [htext] at hline
    rw [readLine?_named hb h (by decide) hline]
    rfl
  | imported name => exact readLine?_imported hb name hline
  | block word name =>
    have htext : (Item.block word name).text.toList =
        word.toList ++ ' ' :: (name.toList ++ [' ', '\x7b']) := by
      simp [Item.text]
    rw [htext] at hline
    rw [readLine?_named hb h.1 (by decide) hline, readNamed_member h.2 (by decide)]
    rfl
  | field f => exact readLine?_field hb h hline
  | value v => exact readLine?_value hb h hline
  | method m => exact readLine?_method hb h hline
  | close => exact readLine?_marked hb (by decide) (by decide) hline

theorem margin_blank {indent : String} (h : ∀ c ∈ indent.toList, c = ' ') (depth : Nat) :
    ∀ c ∈ (margin indent depth).toList, c = ' ' := by
  have key (start : String) (hs : ∀ c ∈ start.toList, c = ' ') :
      ∀ c ∈ ((List.replicate depth indent).foldl (· ++ ·) start).toList, c = ' ' := by
    induction depth generalizing start with
    | zero => exact hs
    | succ depth ih =>
      refine ih (start ++ indent) ?_
      rw [String.toList_append]
      exact blanks_append hs _ h
  exact key "" (by simp)

theorem readLine?_line {indent : String} (hi : ∀ c ∈ indent.toList, c = ' ') {p : Nat × Item}
    (h : p.2.Plain) : readLine? (line indent p) = some p.2 :=
  readLine?_text (margin_blank hi p.1) h String.toList_append

end SchemaTree.Tree
