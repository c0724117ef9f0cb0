import Mathlib.Tactic.SplitIfs
import SchemaTree.Json
import SchemaTree.Proofs.Text.Integer

/-!
# Reading JSON

A reader of JSON texts whose numbers are whole. It takes blanks between any two parts, every escape of the
format with the pairs that stand for one character, and no number with needless zeros. The indented text of
a document is read as the document.
-/

namespace SchemaTree.Json

/-! ### Blanks -/

def isBlank (c : Char) : Bool := c = ' ' ∨ c = '\n' ∨ c = '\r' ∨ c = '\t'

def skip (cs : List Char) : List Char := cs.dropWhile isBlank

theorem skip_newline (level : Nat) (cs : List Char) : skip ((newline level).toList ++ cs) = skip cs := by
  have hblank : ∀ c ∈ (newline level).toList, isBlank c = true := by
    simp [newline, isBlank]
  exact List.dropWhile_append_of_pos hblank

theorem skip_cons {c : Char} (h : isBlank c = false) (cs : List Char) : skip (c :: cs) = c :: cs := by
  apply List.dropWhile_cons_of_neg
  simp [h]

/-! ### Texts -/

/-- The character that a letter stands for after a backslash. -/
def shortEscape? : Char → Option Char
  | '"' => some '"'
  | '\\' => some '\\'
  | '/' => some '/'
  | 'b' => some '\x08'
  | 'f' => some '\x0c'
  | 'n' => some '\n'
  | 'r' => some '\r'
  | 't' => some '\t'
  | _ => none

/-- Reads a number of four hexadecimal digits. -/
def readUnit : List Char → Option (Nat × List Char)
  | a :: b :: c :: d :: cs => (Text.valueInBase? 16 Text.hexValue? [a, b, c, d]).map (·, cs)
  | _ => none

def charAt? (n : Nat) : Option Char := if n.isValidChar then some (Char.ofNat n) else none

/-- Reads the character of a unit, or else of the pair that a unit begins. -/
def readCodePoint (cs : List Char) : Option (Char × List Char) := do
  let (unit, cs) ← readUnit cs
  if 0xd800 ≤ unit ∧ unit < 0xdc00 then
    match cs with
    | '\\' :: 'u' :: cs =>
      let (low, cs) ← readUnit cs
      if 0xdc00 ≤ low ∧ low < 0xe000 then
        (charAt? (0x10000 + (unit - 0xd800) * 0x400 + (low - 0xdc00))).map (·, cs)
      else none
    | _ => none
  else (charAt? unit).map (·, cs)

def readChar : List Char → Option (Char × List Char)
  | [] | ['\\'] => none
  | '\\' :: 'u' :: cs => readCodePoint cs
  | '\\' :: c :: cs => (shortEscape? c).map (·, cs)
  | c :: cs => if c.toNat < 0x20 then none else some (c, cs)

/-- Reads the rest of a text with its closing quote. -/
def readText : Nat → List Char → Option (List Char × List Char)
  | 0, _ => none
  | fuel + 1, cs =>
    match cs with
    | '"' :: cs => some ([], cs)
    | cs => do
      let (c, cs) ← readChar cs
      let (more, cs) ← readText fuel cs
      some (c :: more, cs)

def readQuoted : List Char → Option (String × List Char)
  | '"' :: cs => (readText cs.length cs).map fun (chars, cs) => (String.ofList chars, cs)
  | _ => none

theorem readUnit_hexPair {n : Nat} (h : n < 256) (cs : List Char) :
    readUnit ('0' :: '0' :: (Text.hexPair n ++ cs)) = some (n, cs) := by
  have hzeros : Text.valueInBase? 16 Text.hexValue? ('0' :: '0' :: Text.hexPair n) =
      Text.valueInBase? 16 Text.hexValue? (Text.hexPair n) := rfl
  show (Text.valueInBase? 16 Text.hexValue? ('0' :: '0' :: Text.hexPair n)).map (·, cs) = _
  rw [hzeros, Text.valueInBase?_hexPair h]
  rfl

theorem readChar_plain {c : Char} (hslash : c ≠ '\\') (hplain : ¬c.toNat < 0x20) (cs : List Char) :
    readChar (c :: cs) = some (c, cs) := by
  simp [readChar, hslash, hplain]

theorem readChar_escapeChar (c : Char) (cs : List Char) :
    readChar (escapeChar c ++ cs) = some (c, cs) := by
  by_cases hshort : c ∈ ['"', '\\', '\x08', '\x0c', '\n', '\r', '\t']
  · simp only [List.mem_cons, List.not_mem_nil, or_false] at hshort
    rcases hshort with rfl | rfl | rfl | rfl | rfl | rfl | rfl <;> rfl
  · simp only [List.mem_cons, List.not_mem_nil, or_false, not_or] at hshort
    obtain ⟨hquote, hslash, hb, hf, hn, hr, ht⟩ := hshort
    simp only [escapeChar, hquote, hslash, hb, hf, hn, hr, ht, if_false]
    split
    · rename_i hcontrol
      have hunit := readUnit_hexPair (show c.toNat < 256 by omega) cs
      have hvalid : c.toNat.isValidChar := c.valid
      have hlow : ¬(0xd800 ≤ c.toNat ∧ c.toNat < 0xdc00) := by omega
      show readCodePoint ('0' :: '0' :: (Text.hexPair c.toNat ++ cs)) = _
      simp [readCodePoint, hunit, hlow, charAt?, hvalid]
    · rename_i hplain
      exact readChar_plain hslash hplain cs

theorem escapeChar_head (c : Char) : ∃ d more, escapeChar c = d :: more ∧ d ≠ '"' := by
  unfold escapeChar
  split_ifs <;> simp_all

theorem readText_escaped (cs rest : List Char) {fuel : Nat} (h : cs.length < fuel) :
    readText fuel (cs.flatMap escapeChar ++ '"' :: rest) = some (cs, rest) := by
  induction cs generalizing fuel with
  | nil =>
    cases fuel with
    | zero => cases h
    | succ fuel => rfl
  | cons c cs ih =>
    cases fuel with
    | zero => cases h
    | succ fuel =>
      have hchar := readChar_escapeChar c (cs.flatMap escapeChar ++ '"' :: rest)
      have hmore := ih (Nat.lt_of_succ_lt_succ h)
      obtain ⟨d, more, hescape, hquote⟩ := escapeChar_head c
      rw [hescape, List.cons_append] at hchar
      rw [List.flatMap_cons, hescape, List.append_assoc, List.cons_append]
      simp [readText, hquote, hchar, hmore]

theorem length_le_escaped (cs : List Char) : cs.length ≤ (cs.flatMap escapeChar).length := by
  induction cs with
  | nil => exact Nat.le_refl _
  | cons c cs ih =>
    obtain ⟨d, more, hescape, -⟩ := escapeChar_head c
    rw [List.flatMap_cons, hescape, List.length_append, List.length_cons, List.length_cons]
    omega

theorem quote_append (value : String) (rest : List Char) :
    (quote value).toList ++ rest = '"' :: (value.toList.flatMap escapeChar ++ '"' :: rest) := by
  simp [quote]

theorem readQuoted_quote (value : String) (rest : List Char) :
    readQuoted ((quote value).toList ++ rest) = some (value, rest) := by
  have hlength := length_le_escaped value.toList
  have hfuel : value.toList.length < (value.toList.flatMap escapeChar ++ '"' :: rest).length := by
    rw [List.length_append, List.length_cons]
    omega
  have hread := readText_escaped value.toList rest hfuel
  rw [quote_append, readQuoted, hread, Option.map_some]
  exact congrArg (fun chars => some (chars, rest)) String.ofList_toList

/-! ### Numbers -/

def readNatural (cs : List Char) : Option (Nat × List Char) := do
  let digits := cs.takeWhile Char.isDigit
  let n ← Text.readDigits? digits
  if Nat.toDigits 10 n = digits then some (n, cs.dropWhile Char.isDigit) else none

def readNumber : List Char → Option (Int × List Char)
  | '-' :: cs => (readNatural cs).map fun (n, cs) => (-(n : Int), cs)
  | cs => (readNatural cs).map fun (n, cs) => ((n : Int), cs)

/-- Whether no digit follows. -/
def EndsNumber (rest : List Char) : Prop := ∀ c ∈ rest.head?, c.isDigit = false

theorem readNatural_toDigits (n : Nat) {rest : List Char} (h : EndsNumber rest) :
    readNatural (Nat.toDigits 10 n ++ rest) = some (n, rest) := by
  have hdigits := Text.isDigit_natText n
  have htake : rest.takeWhile Char.isDigit = [] := by
    cases rest with
    | nil => rfl
    | cons c rest => exact List.takeWhile_cons_of_neg (by simp [h c rfl])
  have hdrop : rest.dropWhile Char.isDigit = rest := by
    cases rest with
    | nil => rfl
    | cons c rest => exact List.dropWhile_cons_of_neg (by simp [h c rfl])
  have hread := Text.readDigits?_toDigits n
  rw [readNatural, List.takeWhile_append_of_pos hdigits, List.dropWhile_append_of_pos hdigits, htake,
    hdrop, List.append_nil]
  simp [hread]

theorem intText_ofNat (n : Nat) : (Text.intText (.ofNat n)).toList = Nat.toDigits 10 n := by
  simp [Text.intText, Text.natText]

theorem intText_negSucc (n : Nat) : (Text.intText (.negSucc n)).toList = '-' :: Nat.toDigits 10 (n + 1) := by
  simp [Text.intText, Text.natText]

theorem toDigits_head (n : Nat) : ∃ c cs, Nat.toDigits 10 n = c :: cs ∧ c.isDigit = true := by
  have hdigit := Text.isDigit_natText n
  cases hdigits : Nat.toDigits 10 n with
  | nil => simp at hdigits
  | cons c cs =>
    rw [hdigits] at hdigit
    exact ⟨c, cs, rfl, hdigit c List.mem_cons_self⟩

theorem readNumber_intText (n : Int) {rest : List Char} (h : EndsNumber rest) :
    readNumber ((Text.intText n).toList ++ rest) = some (n, rest) := by
  cases n with
  | ofNat n =>
    have hread := readNatural_toDigits n h
    obtain ⟨c, cs, hdigits, hc⟩ := toDigits_head n
    rw [hdigits, List.cons_append] at hread
    rw [intText_ofNat, hdigits, List.cons_append, readNumber.eq_def]
    -- No digit is a minus sign.
    split
    · rename_i heq
      injection heq with hminus
      rw [hminus] at hc
      exact absurd hc (by decide)
    · rw [hread]
      rfl
  | negSucc n =>
    rw [intText_negSucc, List.cons_append, readNumber, readNatural_toDigits (n + 1) h]
    rfl

/-! ### Documents -/

def readWord (word : List Char) (cs : List Char) : Option (List Char) :=
  if word.isPrefixOf cs then some (cs.drop word.length) else none

mutual

/-- Reads a document and gives back what follows it. -/
def readValue : Nat → List Char → Option (Json × List Char)
  | 0, _ => none
  | fuel + 1, cs =>
    match skip cs with
    | '"' :: cs => (readQuoted ('"' :: cs)).map fun (value, cs) => (.text value, cs)
    | 't' :: cs => (readWord ['r', 'u', 'e'] cs).map fun cs => (.bool true, cs)
    | 'f' :: cs => (readWord ['a', 'l', 's', 'e'] cs).map fun cs => (.bool false, cs)
    | '[' :: cs =>
      match skip cs with
      | ']' :: cs => some (.list [], cs)
      | cs => do
        let (item, cs) ← readValue fuel cs
        let (items, cs) ← readItems fuel cs
        some (.list (item :: items), cs)
    | '\x7b' :: cs =>
      match skip cs with
      | '\x7d' :: cs => some (.object [], cs)
      | cs => do
        let (member, cs) ← readMember fuel cs
        let (members, cs) ← readMembers fuel cs
        some (.object (member :: members), cs)
    | cs => (readNumber cs).map fun (value, cs) => (.number value, cs)

/-- Reads the items of a list after its first one, and the end of the list. -/
def readItems : Nat → List Char → Option (List Json × List Char)
  | 0, _ => none
  | fuel + 1, cs =>
    match skip cs with
    | ']' :: cs => some ([], cs)
    | ',' :: cs => do
      let (item, cs) ← readValue fuel cs
      let (items, cs) ← readItems fuel cs
      some (item :: items, cs)
    | _ => none

def readMember : Nat → List Char → Option ((String × Json) × List Char)
  | 0, _ => none
  | fuel + 1, cs => do
    let (key, cs) ← readQuoted (skip cs)
    match skip cs with
    | ':' :: cs =>
      let (value, cs) ← readValue fuel cs
      some ((key, value), cs)
    | _ => none

/-- Reads the members of an object after its first one, and the end of the object. -/
def readMembers : Nat → List Char → Option (List (String × Json) × List Char)
  | 0, _ => none
  | fuel + 1, cs =>
    match skip cs with
    | '\x7d' :: cs => some ([], cs)
    | ',' :: cs => do
      let (member, cs) ← readMember fuel cs
      let (members, cs) ← readMembers fuel cs
      some (member :: members, cs)
    | _ => none

end

/-- Reads a text that holds a document and blanks around it. -/
def read? (text : String) : Option Json :=
  match readValue (text.length + 1) text.toList with
  | some (value, cs) => if cs.all isBlank then some value else none
  | none => none

/-! ### The first character -/

def startsNumber (c : Char) : Bool := c = '-' ∨ c.isDigit = true

theorem intText_head (n : Int) : ∃ c cs, (Text.intText n).toList = c :: cs ∧ startsNumber c = true := by
  cases n with
  | ofNat n =>
    obtain ⟨c, cs, hdigits, hc⟩ := toDigits_head n
    exact ⟨c, cs, (intText_ofNat n).trans hdigits, by simp [startsNumber, hc]⟩
  | negSucc n => exact ⟨'-', _, intText_negSucc n, by decide⟩

theorem ne_of_startsNumber {c d : Char} (hc : startsNumber c = true) (hd : startsNumber d = false) :
    c ≠ d := by
  rintro rfl
  rw [hc] at hd
  cases hd

theorem startsNumber_notBlank {c : Char} (h : startsNumber c = true) : isBlank c = false := by
  simp only [isBlank, decide_eq_false_iff_not]
  rintro (hc | hc | hc | hc) <;> exact ne_of_startsNumber h (by decide) hc

/-- The text of a document begins with neither a blank nor the end of a list. -/
theorem pretty_head (level : Nat) (j : Json) :
    ∃ c, (pretty level j).toList.head? = some c ∧ isBlank c = false ∧ c ≠ ']' := by
  cases j with
  | text value => exact ⟨'"', by simp [pretty, quote], by decide, by decide⟩
  | number n =>
    obtain ⟨c, cs, htext, hc⟩ := intText_head n
    have hfirst : (pretty level (.number n)).toList.head? = some c := by
      rw [pretty, htext, List.head?_cons]
    exact ⟨c, hfirst, startsNumber_notBlank hc, ne_of_startsNumber hc (by decide)⟩
  | bool value =>
    cases value with
    | true => exact ⟨'t', by simp [pretty], by decide, by decide⟩
    | false => exact ⟨'f', by simp [pretty], by decide, by decide⟩
  | list items => cases items <;> exact ⟨'[', by simp [pretty], by decide, by decide⟩
  | object members => cases members <;> exact ⟨'\x7b', by simp [pretty], by decide, by decide⟩

/-! ### What follows a first item -/

/-- The text from behind the first item of a list on. -/
def itemsEnd (level : Nat) (items : List Json) (rest : List Char) : List Char :=
  (prettyItems (level + 1) items).toList ++ ((newline level).toList ++ ']' :: rest)

def memberText (level : Nat) (member : String × Json) (rest : List Char) : List Char :=
  (quote member.1).toList ++ ':' :: ' ' :: ((pretty level member.2).toList ++ rest)

/-- The text from behind the first member of an object on. -/
def membersEnd (level : Nat) (members : List (String × Json)) (rest : List Char) : List Char :=
  (prettyMembers (level + 1) members).toList ++ ((newline level).toList ++ '\x7d' :: rest)

section
variable (level : Nat) (rest : List Char)

theorem pretty_list (item : Json) (items : List Json) :
    (pretty level (.list (item :: items))).toList ++ rest =
      '[' :: ((newline (level + 1)).toList ++
        ((pretty (level + 1) item).toList ++ itemsEnd level items rest)) := by
  simp [pretty, itemsEnd]

theorem pretty_object (member : String × Json) (members : List (String × Json)) :
    (pretty level (.object (member :: members))).toList ++ rest =
      '\x7b' :: ((newline (level + 1)).toList ++
        memberText (level + 1) member (membersEnd level members rest)) := by
  simp [pretty, memberText, membersEnd]

theorem itemsEnd_nil : itemsEnd level [] rest = (newline level).toList ++ ']' :: rest := by
  simp [itemsEnd, prettyItems]

theorem itemsEnd_cons (item : Json) (items : List Json) :
    itemsEnd level (item :: items) rest =
      ',' :: ((newline (level + 1)).toList ++
        ((pretty (level + 1) item).toList ++ itemsEnd level items rest)) := by
  simp [itemsEnd, prettyItems]

theorem membersEnd_nil : membersEnd level [] rest = (newline level).toList ++ '\x7d' :: rest := by
  simp [membersEnd, prettyMembers]

theorem membersEnd_cons (member : String × Json) (members : List (String × Json)) :
    membersEnd level (member :: members) rest =
      ',' :: ((newline (level + 1)).toList ++
        memberText (level + 1) member (membersEnd level members rest)) := by
  simp [membersEnd, prettyMembers, memberText]

theorem itemsEnd_endsNumber (items : List Json) : EndsNumber (itemsEnd level items rest) := by
  cases items with
  | nil => simp [itemsEnd_nil, newline, EndsNumber, Char.isDigit]
  | cons item items => simp [itemsEnd_cons, EndsNumber, Char.isDigit]

theorem membersEnd_endsNumber (members : List (String × Json)) :
    EndsNumber (membersEnd level members rest) := by
  cases members with
  | nil => simp [membersEnd_nil, newline, EndsNumber, Char.isDigit]
  | cons member members => simp [membersEnd_cons, EndsNumber, Char.isDigit]

/-! ### Blanks before documents -/

theorem readValue_newline (fuel : Nat) :
    readValue fuel ((newline level).toList ++ rest) = readValue fuel rest := by
  cases fuel with
  | zero => rfl
  | succ fuel => rw [readValue, readValue, skip_newline]

theorem readMember_newline (fuel : Nat) :
    readMember fuel ((newline level).toList ++ rest) = readMember fuel rest := by
  cases fuel with
  | zero => rfl
  | succ fuel => rw [readMember, readMember, skip_newline]

end

/-! ### Documents are read as they are written -/

theorem readValue_number (fuel : Nat) (n : Int) {rest : List Char} (h : EndsNumber rest) :
    readValue (fuel + 1) ((Text.intText n).toList ++ rest) = some (.number n, rest) := by
  have hread := readNumber_intText n h
  obtain ⟨c, cs, htext, hc⟩ := intText_head n
  rw [htext, List.cons_append] at hread ⊢
  rw [readValue, skip_cons (startsNumber_notBlank hc)]
  -- A number begins like no other document.
  split
  case h_6 => rw [hread]; rfl
  all_goals
    rename_i heq
    injection heq with hfirst
    exact absurd hfirst (ne_of_startsNumber hc (by decide))

theorem readValue_text (fuel : Nat) (value : String) (rest : List Char) :
    readValue (fuel + 1) ((quote value).toList ++ rest) = some (.text value, rest) := by
  have hread := readQuoted_quote value rest
  rw [quote_append] at hread ⊢
  rw [readValue, skip_cons (by decide)]
  simp only [hread]
  rfl

theorem readValue_bool (fuel : Nat) (value : Bool) (level : Nat) (rest : List Char) :
    readValue (fuel + 1) ((pretty level (.bool value)).toList ++ rest) = some (.bool value, rest) := by
  cases value with
  | true => simp [pretty, readValue, skip_cons, isBlank, readWord]
  | false => simp [pretty, readValue, skip_cons, isBlank, readWord]

/-- What reads back with some fuel. -/
structure ReadsBack (fuel : Nat) : Prop where
  value : ∀ (level : Nat) (j : Json) (rest : List Char), EndsNumber rest →
    ((pretty level j).toList ++ rest).length < fuel →
    readValue fuel ((pretty level j).toList ++ rest) = some (j, rest)
  items : ∀ (level : Nat) (items : List Json) (rest : List Char),
    (itemsEnd level items rest).length < fuel →
    readItems fuel (itemsEnd level items rest) = some (items, rest)
  member : ∀ (level : Nat) (member : String × Json) (rest : List Char), EndsNumber rest →
    (memberText level member rest).length < fuel →
    readMember fuel (memberText level member rest) = some (member, rest)
  members : ∀ (level : Nat) (members : List (String × Json)) (rest : List Char),
    (membersEnd level members rest).length < fuel →
    readMembers fuel (membersEnd level members rest) = some (members, rest)

namespace ReadsBack

variable {fuel : Nat} (ih : ReadsBack fuel) (level : Nat) (rest : List Char)
include ih

theorem value_list (items : List Json)
    (h : ((pretty level (.list items)).toList ++ rest).length ≤ fuel) :
    readValue (fuel + 1) ((pretty level (.list items)).toList ++ rest) = some (.list items, rest) := by
  cases items with
  | nil => simp [pretty, readValue, skip_cons, isBlank]
  | cons item items =>
    rw [pretty_list] at h ⊢
    rw [List.length_cons, List.length_append] at h
    have hitem := ih.value (level + 1) item _ (itemsEnd_endsNumber level rest items) (by omega)
    have hitems := ih.items level items rest (by rw [List.length_append] at h; omega)
    obtain ⟨c, hhead, hblank, hopen⟩ := pretty_head (level + 1) item
    obtain ⟨more, htext⟩ := List.head?_eq_some_iff.mp hhead
    rw [htext, List.cons_append] at hitem ⊢
    rw [readValue, skip_cons (by decide)]
    simp only [skip_newline, skip_cons hblank]
    -- The list does not end where its first item begins.
    split
    · rename_i heq
      injection heq with hc
      exact absurd hc hopen
    · simp [hitem, hitems]

theorem value_object (members : List (String × Json))
    (h : ((pretty level (.object members)).toList ++ rest).length ≤ fuel) :
    readValue (fuel + 1) ((pretty level (.object members)).toList ++ rest) =
      some (.object members, rest) := by
  cases members with
  | nil => simp [pretty, readValue, skip_cons, isBlank]
  | cons member members =>
    rw [pretty_object] at h ⊢
    rw [List.length_cons, List.length_append] at h
    have hmember := ih.member (level + 1) member _ (membersEnd_endsNumber level rest members) (by omega)
    have hmembers := ih.members level members rest (by
      simp only [memberText, List.length_append, List.length_cons] at h
      omega)
    rw [memberText, quote_append] at hmember ⊢
    rw [readValue, skip_cons (by decide)]
    simp only [skip_newline, skip_cons (c := '"') (by decide)]
    simp [hmember, hmembers]

theorem value_succ (j : Json) (hrest : EndsNumber rest)
    (h : ((pretty level j).toList ++ rest).length ≤ fuel) :
    readValue (fuel + 1) ((pretty level j).toList ++ rest) = some (j, rest) := by
  cases j with
  | text value => exact readValue_text fuel value rest
  | number n => exact readValue_number fuel n hrest
  | bool value => exact readValue_bool fuel value level rest
  | list items => exact ih.value_list level rest items h
  | object members => exact ih.value_object level rest members h

theorem items_succ (items : List Json) (h : (itemsEnd level items rest).length ≤ fuel) :
    readItems (fuel + 1) (itemsEnd level items rest) = some (items, rest) := by
  cases items with
  | nil =>
    rw [itemsEnd_nil, readItems, skip_newline]
    rfl
  | cons item items =>
    rw [itemsEnd_cons] at h ⊢
    rw [List.length_cons, List.length_append] at h
    have hitem := ih.value (level + 1) item _ (itemsEnd_endsNumber level rest items) (by omega)
    have hitems := ih.items level items rest (by rw [List.length_append] at h; omega)
    rw [readItems, skip_cons (by decide)]
    simp [readValue_newline, hitem, hitems]

theorem member_succ (member : String × Json) (hrest : EndsNumber rest)
    (h : (memberText level member rest).length ≤ fuel) :
    readMember (fuel + 1) (memberText level member rest) = some (member, rest) := by
  obtain ⟨key, j⟩ := member
  have hkey := readQuoted_quote key (':' :: ' ' :: ((pretty level j).toList ++ rest))
  have hvalue := ih.value level j rest hrest (by
    simp only [memberText, List.length_append, List.length_cons] at h ⊢
    omega)
  have hblank (cs : List Char) : readValue fuel (' ' :: cs) = readValue fuel cs := by
    cases fuel with
    | zero => rfl
    | succ fuel => rw [readValue, readValue]; rfl
  rw [memberText, quote_append] at *
  rw [readMember, skip_cons (by decide), hkey]
  simp only [Option.bind_eq_bind, Option.bind_some, skip_cons (c := ':') (by decide), hblank, hvalue]

theorem members_succ (members : List (String × Json)) (h : (membersEnd level members rest).length ≤ fuel) :
    readMembers (fuel + 1) (membersEnd level members rest) = some (members, rest) := by
  cases members with
  | nil =>
    rw [membersEnd_nil, readMembers, skip_newline]
    rfl
  | cons member members =>
    rw [membersEnd_cons] at h ⊢
    rw [List.length_cons, List.length_append] at h
    have hmember := ih.member (level + 1) member _ (membersEnd_endsNumber level rest members) (by omega)
    have hmembers := ih.members level members rest (by
      simp only [memberText, List.length_append, List.length_cons] at h
      omega)
    rw [readMembers, skip_cons (by decide)]
    simp [readMember_newline, hmember, hmembers]

end ReadsBack

theorem readsBack (fuel : Nat) : ReadsBack fuel := by
  induction fuel with
  | zero => constructor <;> intros <;> omega
  | succ fuel ih =>
    constructor
    · intro level j rest hrest h
      exact ih.value_succ level rest j hrest (Nat.le_of_lt_succ h)
    · intro level items rest h
      exact ih.items_succ level rest items (Nat.le_of_lt_succ h)
    · intro level member rest hrest h
      exact ih.member_succ level rest member hrest (Nat.le_of_lt_succ h)
    · intro level members rest h
      exact ih.members_succ level rest members (Nat.le_of_lt_succ h)

/-- The indented text of a document is read as the document. -/
theorem read?_pretty (level : Nat) (j : Json) : read? (pretty level j) = some j := by
  have hends : EndsNumber [] := by simp [EndsNumber]
  have hread := (readsBack ((pretty level j).length + 1)).value level j [] hends (by
    rw [List.append_nil, String.length_toList]
    omega)
  rw [List.append_nil] at hread
  rw [read?, hread]
  rfl

example : read? " [ \"\\u00e9\\/\\ud83d\\ude00\" , -7,true ]" =
    some (.list [.text "é/😀", .number (-7), .bool true]) := by rfl

end SchemaTree.Json
