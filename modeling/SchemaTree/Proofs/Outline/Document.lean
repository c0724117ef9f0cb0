import SchemaTree.Width
import SchemaTree.Outline.Document
import SchemaTree.Proofs.Json.Reader

/-!
# Outlines are read back from JSON

An outline is read from a document by the names of its members, in any order and with others among them. A
field that has no member for a default clause has none, and a number has to be within 32 bits. Since nothing
else is lost on the way to the text, registries with different outlines have different texts.
-/

namespace SchemaTree

/-! ### Values of documents -/

namespace Json

def text? : Json → Option String
  | .text value => some value
  | _ => none

def bool? : Json → Option Bool
  | .bool value => some value
  | _ => none

/-- The character of a text that has just one. -/
def char? : Json → Option Char
  | .text value =>
    match value.toList with
    | [c] => some c
    | _ => none
  | _ => none

def unsigned? : Json → Option UInt32
  | .number n => if 0 ≤ n ∧ n ≤ Width.greatestUnsigned 32 then some (UInt32.ofNat n.toNat) else none
  | _ => none

def signed? : Json → Option Int32
  | .number n => if Width.least 32 ≤ n ∧ n ≤ Width.greatest 32 then some (Int32.ofInt n) else none
  | _ => none

def list? (read : Json → Option α) : Json → Option (List α)
  | .list items => items.mapM read
  | _ => none

def member? (key : String) : Json → Option Json
  | .object members => members.lookup key
  | _ => none

def get? (key : String) (read : Json → Option α) (j : Json) : Option α := (j.member? key).bind read

section
variable {key other : String} {read : Json → Option α} (value : Json) (members : List (String × Json))

theorem member?_same : member? key (.object ((key, value) :: members)) = some value := by
  simp [member?]

theorem member?_other (h : key ≠ other) :
    member? key (.object ((other, value) :: members)) = member? key (.object members) := by
  rw [member?, List.lookup_cons, beq_false_of_ne h]
  rfl

theorem get?_same : get? key read (.object ((key, value) :: members)) = read value := by
  rw [get?, member?_same, Option.bind_some]

theorem get?_other (h : key ≠ other) :
    get? key read (.object ((other, value) :: members)) = get? key read (.object members) := by
  rw [get?, get?, member?_other value members h]

end

theorem char?_singleton (c : Char) : char? (.text (String.singleton c)) = some c := by
  simp [char?]

theorem unsigned?_toNat (n : UInt32) : unsigned? (.number n.toNat) = some n := by
  have hbound := n.toNat_lt
  have hgreatest : Width.greatestUnsigned 32 = 4294967295 := rfl
  have hrange : 0 ≤ (n.toNat : Int) ∧ (n.toNat : Int) ≤ Width.greatestUnsigned 32 := by omega
  rw [unsigned?, if_pos hrange, Int.toNat_natCast, UInt32.ofNat_toNat]

theorem signed?_toInt (n : Int32) : signed? (.number n.toInt) = some n := by
  have hleast := n.le_toInt
  have hgreatest := n.toInt_lt
  have hrange : Width.least 32 ≤ n.toInt ∧ n.toInt ≤ Width.greatest 32 := by
    have hwidth : Width.least 32 = -2147483648 ∧ Width.greatest 32 = 2147483647 := ⟨rfl, rfl⟩
    omega
  rw [signed?, if_pos hrange, Int32.ofInt_toInt]

theorem list?_map {read : Json → Option α} {write : α → Json} (h : ∀ x, read (write x) = some x)
    (xs : List α) : list? read (.list (xs.map write)) = some xs := by
  have hread : (xs.map write).mapM read = some xs := by
    induction xs with
    | nil => rfl
    | cons x xs ih =>
      rw [List.map_cons, List.mapM_cons, h, ih]
      rfl
  exact hread

end Json

namespace Outline
open Json (text? bool? char? unsigned? signed? list? get? member? get?_same get?_other member?_same
  member?_other)

/-! ### Parts of outlines -/

def readField? (j : Json) : Option Field := do
  let name ← get? "name" text? j
  let number ← get? "number" unsigned? j
  let type ← get? "type" text? j
  let marker ← get? "marker" char? j
  let clause ← match member? "default" j with
    | none => some none
    | some value => (text? value).map some
  some ⟨name, number, type, marker, clause⟩

def readValue? (j : Json) : Option Schema.EnumValue := do
  let name ← get? "name" text? j
  let number ← get? "number" signed? j
  some ⟨name, number⟩

def readEnum? (j : Json) : Option Schema.Enum := do
  let name ← get? "name" text? j
  let values ← get? "values" (list? readValue?) j
  some ⟨name, values⟩

def readMethod? (j : Json) : Option Schema.Method := do
  let name ← get? "name" text? j
  let input ← get? "input" text? j
  let output ← get? "output" text? j
  let clientStreaming ← get? "client_streaming" bool? j
  let serverStreaming ← get? "server_streaming" bool? j
  some ⟨name, input, output, clientStreaming, serverStreaming⟩

def readService? (j : Json) : Option Schema.Service := do
  let name ← get? "name" text? j
  let methods ← get? "methods" (list? readMethod?) j
  some ⟨name, methods⟩

-- The messages in a message are found member by member, so that they are parts of what is read.
mutual

def readMessage? : Json → Option Message
  | .object members => do
    let name ← get? "name" text? (.object members)
    let fields ← get? "fields" (list? readField?) (.object members)
    let messages ← readMessages? members
    let enums ← get? "enums" (list? readEnum?) (.object members)
    some ⟨name, fields, messages, enums⟩
  | _ => none

/-- Reads the messages that the member for them holds. -/
def readMessages? : List (String × Json) → Option (List Message)
  | [] => none
  | (key, value) :: members => if key = "messages" then readMessageList? value else readMessages? members

def readMessageList? : Json → Option (List Message)
  | .list items => readEachMessage? items
  | _ => none

def readEachMessage? : List Json → Option (List Message)
  | [] => some []
  | item :: items => do
    let message ← readMessage? item
    let messages ← readEachMessage? items
    some (message :: messages)

end

def readFile? (j : Json) : Option File := do
  let name ← get? "name" text? j
  let dialect ← get? "syntax" text? j
  let package ← get? "package" text? j
  let imports ← get? "imports" (list? text?) j
  let messages ← get? "messages" readMessageList? j
  let enums ← get? "enums" (list? readEnum?) j
  let services ← get? "services" (list? readService?) j
  some ⟨name, dialect, package, imports, messages, enums, services⟩

/-- Reads outlines back from the text of their document. -/
def readJson? (text : String) : Option (List File) := (Json.read? text).bind (list? readFile?)

/-! ### Parts are read as they are written -/

theorem readField?_document (field : Field) : readField? field.document = some field := by
  obtain ⟨name, number, type, marker, clause⟩ := field
  have hnumber := Json.unsigned?_toNat number
  have hmarker := Json.char?_singleton marker
  cases clause with
  | none =>
    simp only [readField?, Field.document, List.append_nil]
    simp (disch := decide) only [get?_same, get?_other, member?_other, hnumber, hmarker]
    rfl
  | some clause =>
    simp only [readField?, Field.document, List.cons_append, List.nil_append]
    simp (disch := decide) only [get?_same, get?_other, member?_same, member?_other, hnumber, hmarker]
    rfl

theorem readEnum?_document (enum : Schema.Enum) : readEnum? (enumDocument enum) = some enum := by
  obtain ⟨name, values⟩ := enum
  have hvalue (v : Schema.EnumValue) :
      readValue? (.object [("name", .text v.name), ("number", .number v.number.toInt)]) = some v := by
    have hnumber := Json.signed?_toInt v.number
    simp (disch := decide) only [readValue?, get?_same, get?_other, hnumber]
    rfl
  have hvalues := Json.list?_map hvalue values
  simp (disch := decide) only [readEnum?, enumDocument, get?_same, get?_other, hvalues]
  rfl

theorem readService?_document (service : Schema.Service) :
    readService? (serviceDocument service) = some service := by
  obtain ⟨name, methods⟩ := service
  have hmethod (m : Schema.Method) :
      readMethod? (.object [("name", .text m.name), ("input", .text m.input), ("output", .text m.output),
        ("client_streaming", .bool m.clientStreaming), ("server_streaming", .bool m.serverStreaming)]) =
        some m := by
    simp (disch := decide) only [readMethod?, get?_same, get?_other]
    rfl
  have hmethods := Json.list?_map hmethod methods
  simp (disch := decide) only [readService?, serviceDocument, get?_same, get?_other, hmethods]
  rfl

mutual

theorem readMessage?_document : ∀ message : Message, readMessage? (messageDocument message) = some message
  | ⟨name, fields, messages, enums⟩ => by
    have hfields := Json.list?_map readField?_document fields
    have hmessages : readMessages? [("name", .text name), ("fields", .list (fields.map Field.document)),
        ("messages", .list (messageDocuments messages)), ("enums", .list (enums.map enumDocument))] =
        some messages := by
      simp [readMessages?, readMessageList?, readEachMessage?_documents messages]
    have henums := Json.list?_map readEnum?_document enums
    rw [messageDocument, readMessage?, hmessages]
    simp (disch := decide) only [get?_same, get?_other, hfields, henums]
    rfl

theorem readEachMessage?_documents : ∀ messages : List Message,
    readEachMessage? (messageDocuments messages) = some messages
  | [] => rfl
  | message :: messages => by
    have hmessage := readMessage?_document message
    have hmessages := readEachMessage?_documents messages
    simp [messageDocuments, readEachMessage?, hmessage, hmessages]

end

theorem readFile?_document (file : File) : readFile? file.document = some file := by
  obtain ⟨name, dialect, package, imports, messages, enums, services⟩ := file
  have htext (value : String) : text? (.text value) = some value := rfl
  have himports := Json.list?_map htext imports
  have hmessages : readMessageList? (.list (messageDocuments messages)) = some messages := by
    rw [readMessageList?, readEachMessage?_documents]
  have henums := Json.list?_map readEnum?_document enums
  have hservices := Json.list?_map readService?_document services
  simp (disch := decide) only [readFile?, File.document, get?_same, get?_other, himports, hmessages,
    henums, hservices]
  rfl

/-! ### Texts -/

/-- The JSON text of a registry is read back as its outline, so that it gives the outline away. -/
theorem json_lossless :
    (∀ r : Registry, readJson? (json r) = some (ofRegistry r)) ∧
    ∀ r₁ r₂ : Registry, ofRegistry r₁ ≠ ofRegistry r₂ → json r₁ ≠ json r₂ := by
  have hread (r : Registry) : readJson? (json r) = some (ofRegistry r) := by
    rw [readJson?, json, Json.read?_pretty]
    exact Json.list?_map readFile?_document (ofRegistry r)
  refine ⟨hread, ?_⟩
  intro r₁ r₂ hne hjson
  have hread₁ := hread r₁
  rw [hjson, hread r₂] at hread₁
  exact hne (Option.some.inj hread₁).symm

end Outline
end SchemaTree
