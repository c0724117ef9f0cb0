import SchemaTree.Pool.Default
import SchemaTree.Proofs.Snapshot.Kinds
import SchemaTree.Proofs.Text.Quoted

/-!
# Default clauses are read back

The default clause of a text, of bytes, of a whole number or of a flag tells which default it shows: there
is a reader for each that gives the default back. That of a text ends at its first quote outside an escape.
-/

namespace SchemaTree.Schema

/-! ### Bytes -/

def readByte? (cs : List Char) : Option UInt8 := do
  let n ← Text.readDigits? cs
  if n < 256 then some n.toUInt8 else none

/-- Reads bytes as decimal numbers in brackets, with one blank between two of them. -/
def readBytes? : List Char → Option (List UInt8)
  | '[' :: cs =>
    if cs.getLast? = some ']' then
      let inner := cs.dropLast
      if inner = [] then some [] else (inner.splitOn ' ').mapM readByte?
    else none
  | _ => none

/-- The numbers of bytes as they are written. -/
def byteNumbers (bytes : List UInt8) : List (List Char) := bytes.map fun b => Nat.toDigits 10 b.toNat

theorem toList_bytesText (bytes : List UInt8) : (DefaultValue.bytesText bytes).toList =
    '[' :: ([' '].intercalate (byteNumbers bytes) ++ [']']) := by
  simp [DefaultValue.bytesText, byteNumbers, String.toList_intercalate, Text.natText, Function.comp_def]

theorem mapM_readByte? (bytes : List UInt8) : (byteNumbers bytes).mapM readByte? = some bytes := by
  induction bytes with
  | nil => rfl
  | cons b bytes ih =>
    have hbyte : readByte? (Nat.toDigits 10 b.toNat) = some b := by
      simp [readByte?, Text.readDigits?_toDigits, b.toNat_lt]
    simp only [byteNumbers, List.map_cons, List.mapM_cons, hbyte] at ih ⊢
    rw [ih]
    rfl

theorem splitOn_byteNumbers {bytes : List UInt8} (hne : bytes ≠ []) :
    ([' '].intercalate (byteNumbers bytes)).splitOn ' ' = byteNumbers bytes := by
  refine List.splitOn_intercalate ' ' ?_ (by simpa [byteNumbers] using hne)
  intro number hnumber hblank
  obtain ⟨b, _, rfl⟩ := List.mem_map.mp hnumber
  exact absurd (Text.isDigit_natText b.toNat ' ' hblank) (by decide)

theorem readBytes?_bytesText (bytes : List UInt8) :
    readBytes? (DefaultValue.bytesText bytes).toList = some bytes := by
  rw [toList_bytesText, readBytes?, List.getLast?_concat, List.dropLast_concat, if_pos rfl]
  cases bytes with
  | nil => rfl
  | cons b bytes =>
    have hsplit := splitOn_byteNumbers (List.cons_ne_nil b bytes)
    have hinner : [' '].intercalate (byteNumbers (b :: bytes)) ≠ [] := by
      intro hnil
      rw [hnil] at hsplit
      simp [byteNumbers] at hsplit
    rw [if_neg hinner, hsplit, mapM_readByte?]

/-! ### Whole numbers and flags -/

/-- The type code of a kind. -/
def Kind.code : Kind → Int
  | double => 1
  | float => 2
  | int64 => 3
  | uint64 => 4
  | int32 => 5
  | fixed64 => 6
  | fixed32 => 7
  | bool => 8
  | string => 9
  | unknown => 10
  | message => 11
  | bytes => 12
  | uint32 => 13
  | enum => 14
  | sfixed32 => 15
  | sfixed64 => 16
  | sint32 => 17
  | sint64 => 18

/-- Whether a kind is that of whole numbers or of flags. -/
def Kind.isWhole : Kind → Bool
  | double | float | string | bytes | enum | message | unknown => false
  | _ => true

theorem within?_eq_some {low high n : Int} (hlow : low ≤ n) (hhigh : n ≤ high) :
    Pool.within? low high n = some n := if_pos ⟨hlow, hhigh⟩

theorem within?_int32 (v : Int32) :
    Pool.within? (Width.least 32) (Width.greatest 32) v.toInt = some v.toInt := by
  have hlow : -2147483648 ≤ v.toInt := v.le_toInt
  have hhigh : v.toInt < 2147483648 := v.toInt_lt
  exact within?_eq_some hlow (Int.le_sub_one_of_lt hhigh)

theorem within?_int64 (v : Int64) :
    Pool.within? (Width.least 64) (Width.greatest 64) v.toInt = some v.toInt := by
  have hlow : -9223372036854775808 ≤ v.toInt := v.le_toInt
  have hhigh : v.toInt < 9223372036854775808 := v.toInt_lt
  exact within?_eq_some hlow (Int.le_sub_one_of_lt hhigh)

theorem within?_uint32 (v : UInt32) :
    Pool.within? 0 (Width.greatestUnsigned 32) v.toNat = some (v.toNat : Int) := by
  have hhigh : (v.toNat : Int) < 4294967296 := Int.ofNat_lt.mpr v.toNat_lt
  exact within?_eq_some (Int.natCast_nonneg _) (Int.le_sub_one_of_lt hhigh)

theorem within?_uint64 (v : UInt64) :
    Pool.within? 0 (Width.greatestUnsigned 64) v.toNat = some (v.toNat : Int) := by
  have hhigh : (v.toNat : Int) < 18446744073709551616 := Int.ofNat_lt.mpr v.toNat_lt
  exact within?_eq_some (Int.natCast_nonneg _) (Int.le_sub_one_of_lt hhigh)

/-- Defaults of kinds of whole numbers and flags are read from their texts, over the whole range. -/
theorem scalarDefault?_text {kind : Kind} {value : DefaultValue} (hkind : kind.isWhole = true)
    (hown : value.variant = kind.variant) :
    (Pool.scalarDefault? kind.code value.text).map Snapshot.scalarDefault = some value := by
  cases kind with
  | int32 | sint32 | sfixed32 =>
    cases value with
    | int32 v =>
      simp [Pool.scalarDefault?, Kind.code, DefaultValue.text, Text.readInt?_intText, within?_int32,
        Snapshot.scalarDefault]
    | _ => cases hown
  | int64 | sint64 | sfixed64 =>
    cases value with
    | int64 v =>
      simp [Pool.scalarDefault?, Kind.code, DefaultValue.text, Text.readInt?_intText, within?_int64,
        Snapshot.scalarDefault]
    | _ => cases hown
  | uint32 | fixed32 =>
    cases value with
    | uint32 v =>
      simp [Pool.scalarDefault?, Kind.code, DefaultValue.text, Text.readNat?_natText, within?_uint32,
        Snapshot.scalarDefault]
    | _ => cases hown
  | uint64 | fixed64 =>
    cases value with
    | uint64 v =>
      simp [Pool.scalarDefault?, Kind.code, DefaultValue.text, Text.readNat?_natText, within?_uint64,
        Snapshot.scalarDefault]
    | _ => cases hown
  | bool =>
    cases value with
    | bool v => cases v <;> rfl
    | _ => cases hown
  | double | float | string | bytes | enum | message | unknown => cases hkind

theorem DefaultValue.exists_string {value : DefaultValue} (h : value.variant = .string) :
    ∃ s, value = .string s := by
  cases value with
  | string s => exact ⟨s, rfl⟩
  | _ => cases h

theorem DefaultValue.exists_bytes {value : DefaultValue} (h : value.variant = .bytes) :
    ∃ bytes, value = .bytes bytes := by
  cases value with
  | bytes bytes => exact ⟨bytes, rfl⟩
  | _ => cases h

/-! ### Clauses -/

/-- Whether a kind is that of texts, of bytes, of whole numbers or of flags. -/
def Kind.isExact (kind : Kind) : Bool := kind = string || kind = bytes || kind.isWhole

/-- Reads the default clause of a field of a kind. -/
def readClause? (kind : Kind) (clause : String) : Option DefaultValue :=
  if kind = .string then (Text.readQuoted? clause.toList).map .string
  else if kind = .bytes then (readBytes? clause.toList).map .bytes
  else (Pool.scalarDefault? kind.code clause).map Snapshot.scalarDefault

theorem defaultClause?_string {y : Field} {s : String} (hkind : y.kind = .string)
    (hdefault : y.defaultValue = .string s) : y.defaultClause? = some (Text.quoted s) := by
  rw [Field.defaultClause?, hkind, hdefault]
  rfl

theorem DefaultValue.clause?_of_present {value : DefaultValue} (h : value.variant ≠ .absent) :
    value.clause? = some value.text := by
  cases value with
  | absent => exact absurd rfl h
  | _ => rfl

theorem defaultClause?_bytes {y : Field} {bytes : List UInt8} (hkind : y.kind = .bytes)
    (hdefault : y.defaultValue = .bytes bytes) :
    y.defaultClause? = some (DefaultValue.bytesText bytes) := by
  rw [Field.defaultClause?, hkind, hdefault]
  rfl

theorem defaultClause?_whole {y : Field} (hkind : y.kind.isWhole = true)
    (hown : y.defaultValue.variant = y.kind.variant) :
    y.defaultClause? = some y.defaultValue.text := by
  have hpresent : y.defaultValue.variant ≠ .absent := by
    rw [hown]
    intro habsent
    rcases (Kind.variant_eq_absent _).mp habsent with h | h <;> rw [h] at hkind <;> cases hkind
  rw [← DefaultValue.clause?_of_present hpresent]
  unfold Field.defaultClause?
  split
  · rename_i h
    rw [h] at hkind
    cases hkind
  · rename_i h
    rw [h] at hkind
    cases hkind
  · rfl

/-- The default clause of a field of such a kind is read back as the default, if that is one of the kind. -/
theorem readClause?_defaultClause {y : Field} (hexact : y.kind.isExact = true)
    (hown : y.defaultValue.variant = y.kind.variant) :
    ∃ clause, y.defaultClause? = some clause ∧ readClause? y.kind clause = some y.defaultValue := by
  simp only [Kind.isExact, Bool.or_eq_true, decide_eq_true_eq] at hexact
  rcases hexact with (hkind | hkind) | hwhole
  · rw [hkind] at hown
    obtain ⟨s, hdefault⟩ := DefaultValue.exists_string hown
    refine ⟨_, defaultClause?_string hkind hdefault, ?_⟩
    rw [hkind, hdefault, readClause?, if_pos rfl, Text.readQuoted?_quoted]
    rfl
  · rw [hkind] at hown
    obtain ⟨bytes, hdefault⟩ := DefaultValue.exists_bytes hown
    refine ⟨_, defaultClause?_bytes hkind hdefault, ?_⟩
    rw [hkind, hdefault, readClause?, if_neg (by decide), if_pos rfl, readBytes?_bytesText]
    rfl
  · have hstring : y.kind ≠ .string := fun h => by rw [h] at hwhole; cases hwhole
    have hbytes : y.kind ≠ .bytes := fun h => by rw [h] at hwhole; cases hwhole
    refine ⟨_, defaultClause?_whole hwhole hown, ?_⟩
    rw [readClause?, if_neg hstring, if_neg hbytes]
    exact scalarDefault?_text hwhole hown

/-- What default clauses say: the one of a text is quoted, ends at its first quote outside an escape, and
spells the text; those of bytes, whole numbers and flags are read back; and of two fields of one such kind
with the same clause, the defaults are the same. -/
theorem defaultClause_faithful :
    (∀ (y : Field) (s : String), y.kind = .string → y.defaultValue = .string s → ∃ e : String,
      y.defaultClause? = some ("\"" ++ e ++ "\"") ∧
      (∀ c ∈ e.toList, Text.isControl c = false) ∧
      (∀ rest, Text.untilQuote? (e.toList ++ '"' :: rest) = some e.toList) ∧
      Text.unescape? e.toList = some s.toList) ∧
    (∀ (y : Field) (bytes : List UInt8), y.kind = .bytes → y.defaultValue = .bytes bytes →
      ∃ clause, y.defaultClause? = some clause ∧ readBytes? clause.toList = some bytes) ∧
    (∀ y : Field, y.kind.isWhole = true → y.defaultValue.variant = y.kind.variant →
      ∃ clause, y.defaultClause? = some clause ∧
        (Pool.scalarDefault? y.kind.code clause).map Snapshot.scalarDefault = some y.defaultValue) ∧
    ∀ y z : Field, y.kind.isExact = true → z.kind = y.kind →
      y.defaultValue.variant = y.kind.variant → z.defaultValue.variant = z.kind.variant →
      y.defaultClause? = z.defaultClause? → y.defaultValue = z.defaultValue := by
  refine ⟨?_, ?_, ?_, ?_⟩
  · intro y s hkind hdefault
    exact ⟨Text.escape s, defaultClause?_string hkind hdefault, Text.isControl_escape s,
      Text.untilQuote?_escape s, Text.unescape?_escape s⟩
  · intro y bytes hkind hdefault
    exact ⟨_, defaultClause?_bytes hkind hdefault, readBytes?_bytesText bytes⟩
  · intro y hwhole hown
    exact ⟨_, defaultClause?_whole hwhole hown, scalarDefault?_text hwhole hown⟩
  · intro y z hexact hkind hy hz hsame
    obtain ⟨clause, hclause, hread⟩ := readClause?_defaultClause hexact hy
    obtain ⟨clause', hclause', hread'⟩ := readClause?_defaultClause (hkind ▸ hexact) hz
    obtain rfl : clause = clause' := Option.some.inj (hclause.symm.trans (hsame.trans hclause'))
    rw [hkind, hread] at hread'
    exact Option.some.inj hread'

/-- A text with a backslash before a quote, a control character before letters that are digits, and letters
that spell an escape. -/
def interactingText : String := "\\\"\x01ab\\x41\\\\n\x7f\n"

def interactingField : Field := ⟨"s", 1, .string, true, false, .string interactingText, none⟩

def bytesField : Field := ⟨"b", 2, .bytes, true, false, .bytes [0, 255, 10], none⟩

/-- A field whose default is the least number of its kind. -/
def leastField (name : String) : Field :=
  ⟨name, 3, .sint64, true, false, .int64 (-9223372036854775808), none⟩

theorem defaultClause_faithful_interacting :
    (∃ e : String, interactingField.defaultClause? = some ("\"" ++ e ++ "\"") ∧
      (∀ c ∈ e.toList, Text.isControl c = false) ∧
      (∀ rest, Text.untilQuote? (e.toList ++ '"' :: rest) = some e.toList) ∧
      Text.unescape? e.toList = some interactingText.toList) ∧
    (∃ clause, bytesField.defaultClause? = some clause ∧
      readBytes? clause.toList = some [0, 255, 10]) ∧
    (∃ clause, (leastField "a").defaultClause? = some clause ∧
      (Pool.scalarDefault? Kind.sint64.code clause).map Snapshot.scalarDefault =
        some (leastField "a").defaultValue) ∧
    ((leastField "a").defaultClause? = (leastField "b").defaultClause? ∧
      (leastField "a").defaultValue = (leastField "b").defaultValue) := by
  obtain ⟨htext, hbytes, hwhole, hsame⟩ := defaultClause_faithful
  refine ⟨htext interactingField interactingText rfl rfl, hbytes bytesField _ rfl rfl,
    hwhole (leastField "a") rfl rfl, rfl, ?_⟩
  exact hsame (leastField "a") (leastField "b") rfl rfl rfl rfl rfl

end SchemaTree.Schema
