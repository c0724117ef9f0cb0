import SchemaTree.Descriptor.Basic

/-!
# Reading descriptor sets

A descriptor set is read from the wire message by message. A field that a message does not know is
skipped; the wrong wire type for a known one, a text that is not UTF-8 and messages nested more than
a hundred deep are refused. Of a single value the last one counts, and options messages that occur
more than once are merged.
-/

namespace SchemaTree.Descriptor

open Wire (Value)

/-! ### Values -/

def levels : Value → Nat
  | .group _ n => n
  | _ => 1

/-- Skips an unknown value in a message that may still nest `budget` levels. -/
def skip (budget : Nat) (value : Value) (a : α) : Option α :=
  if levels value ≤ budget then some a else none

def text? : Value → Option String
  | .bytes b => Wire.utf8? b
  | _ => none

/-- The 32-bit number of a value. -/
def int32? : Value → Option Int
  | .varint v => some (Wire.int32 v)
  | _ => none

/-- The numbers of a value that may be one number or a packed list. -/
def int32s? : Value → Option (List Int)
  | .varint v => some [Wire.int32 v]
  | .bytes b => (Wire.readVarints? b).map (·.map Wire.int32)
  | _ => none

def flag? : Value → Option Bool
  | .varint v => some (v != 0)
  | _ => none

/-- Reads an embedded message with a reader that gets what is left of the budget. -/
def embedded? (budget : Nat) (value : Value) (read : Nat → Bytes → Option α) : Option α :=
  match budget, value with
  | left + 1, .bytes b => read left b
  | _, _ => none

def readMessage? (step : α → Wire.Field → Option α) (start : α) (bs : Bytes) : Option α := do
  (← Wire.readFields? bs).foldlM step start

/-! ### Options -/

def readNamePart? (budget : Nat) : Bytes → Option NamePart :=
  readMessage? (fun part f => match f.number with
    | 1 => (text? f.value).map ({ part with text := · })
    | 2 => (flag? f.value).map ({ part with isExtension := · })
    | _ => skip budget f.value part) {}

def readUninterpreted? (budget : Nat) : Bytes → Option UninterpretedOption :=
  readMessage? (fun o f => match f.number with
    | 2 => (embedded? budget f.value readNamePart?).map fun p => { o with name := o.name ++ [p] }
    | 3 => (text? f.value).map ({ o with identifier := some · })
    | 4 => match f.value with
      | .varint v => some { o with positiveInt := some v }
      | _ => none
    | 5 => match f.value with
      | .varint v => some { o with negativeInt := some (Wire.int64 v) }
      | _ => none
    | 6 => match f.value with
      | .fixed64 v => some { o with double := some v }
      | _ => none
    | 7 => match f.value with
      | .bytes b => some { o with string := some b }
      | _ => none
    | 8 => (text? f.value).map ({ o with aggregate := some · })
    | _ => skip budget f.value o) {}

/-- The value of a known option, in the form in which it is kept. -/
def OptionType.value? (type : OptionType) (value : Value) : Option Value :=
  match type with
  | .bool => (flag? value).map flagValue
  | .enum => (int32? value).map fun n => .varint (Wire.ofInt n)
  | .text => (text? value).map textValue

/-- Reads an options message into options that are already there. -/
def readOptions? (target : Target) (start : Options) (budget : Nat) : Bytes → Option Options :=
  readMessage? (fun options f =>
    if f.number = uninterpretedNumber then
      (embedded? budget f.value readUninterpreted?).map fun o =>
        { options with uninterpreted := options.uninterpreted ++ [o] }
    else match target.known.lookup f.number with
      | some type => (type.value? f.value).map (options.set f.number)
      | none => skip budget f.value options) start

def mergeOptions? (target : Target) (start : Option Options) (budget : Nat) (value : Value) :
    Option (Option Options) :=
  (embedded? budget value (readOptions? target (start.getD {}))).map some

/-! ### Declarations -/

/-- The label of a number; an unknown one means optional. -/
def Label.ofCode : Int → Label
  | 2 => .required
  | 3 => .repeated
  | _ => .optional

def readField? (budget : Nat) : Bytes → Option Field :=
  readMessage? (fun d f => match f.number with
    | 1 => (text? f.value).map ({ d with name := · })
    | 2 => (text? f.value).map ({ d with extendee := some · })
    | 3 => (int32? f.value).map ({ d with number := · })
    | 4 => (int32? f.value).map fun n => { d with label := .ofCode n }
    | 5 => (int32? f.value).map ({ d with typeCode := · })
    | 6 => (text? f.value).map ({ d with typeName := · })
    | 7 => (text? f.value).map ({ d with defaultText := some · })
    | 8 => (mergeOptions? .field d.options budget f.value).map ({ d with options := · })
    | 9 => (int32? f.value).map ({ d with oneofIndex := some · })
    | 10 => (text? f.value).map ({ d with jsonName := some · })
    | 17 => (flag? f.value).map ({ d with isProto3Optional := · })
    | _ => skip budget f.value d) {}

def readOneof? (budget : Nat) : Bytes → Option Oneof :=
  readMessage? (fun d f => match f.number with
    | 1 => (text? f.value).map ({ d with name := · })
    | 2 => (mergeOptions? .oneof d.options budget f.value).map ({ d with options := · })
    | _ => skip budget f.value d) {}

def readRange? (budget : Nat) : Bytes → Option Range :=
  readMessage? (fun d f => match f.number with
    | 1 => (int32? f.value).map ({ d with first := · })
    | 2 => (int32? f.value).map ({ d with stop := · })
    | _ => skip budget f.value d) {}

def readExtensionRange? (budget : Nat) : Bytes → Option ExtensionRange :=
  readMessage? (fun d f => match f.number with
    | 1 => (int32? f.value).map ({ d with first := · })
    | 2 => (int32? f.value).map ({ d with stop := · })
    | 3 => (mergeOptions? .extensionRange d.options budget f.value).map ({ d with options := · })
    | _ => skip budget f.value d) {}

def readEnumValue? (budget : Nat) : Bytes → Option EnumValue :=
  readMessage? (fun d f => match f.number with
    | 1 => (text? f.value).map ({ d with name := · })
    | 2 => (int32? f.value).map ({ d with number := · })
    | 3 => (mergeOptions? .enumValue d.options budget f.value).map ({ d with options := · })
    | _ => skip budget f.value d) {}

def readEnum? (budget : Nat) : Bytes → Option Enum :=
  readMessage? (fun d f => match f.number with
    | 1 => (text? f.value).map ({ d with name := · })
    | 2 => (embedded? budget f.value readEnumValue?).map fun v => { d with values := d.values ++ [v] }
    | 3 => (mergeOptions? .enum d.options budget f.value).map ({ d with options := · })
    | 4 => (embedded? budget f.value readRange?).map fun r =>
      { d with reservedRanges := d.reservedRanges ++ [r] }
    | 5 => (text? f.value).map fun n => { d with reservedNames := d.reservedNames ++ [n] }
    | _ => skip budget f.value d) {}

/-- Reads one field of a message, given the reader of the messages nested in it. -/
def readMessageField? (budget : Nat) (nested : Bytes → Option Message) (d : Message) (f : Wire.Field) :
    Option Message :=
  match f.number with
  | 1 => (text? f.value).map ({ d with name := · })
  | 2 => (embedded? budget f.value readField?).map fun x => { d with fields := d.fields ++ [x] }
  | 3 => match f.value with
    | .bytes b => (nested b).map fun m => { d with messages := d.messages ++ [m] }
    | _ => none
  | 4 => (embedded? budget f.value readEnum?).map fun e => { d with enums := d.enums ++ [e] }
  | 5 => (embedded? budget f.value readExtensionRange?).map fun r =>
    { d with extensionRanges := d.extensionRanges ++ [r] }
  | 6 => (embedded? budget f.value readField?).map fun x => { d with extensions := d.extensions ++ [x] }
  | 7 => (mergeOptions? .message d.options budget f.value).map ({ d with options := · })
  | 8 => (embedded? budget f.value readOneof?).map fun o => { d with oneofs := d.oneofs ++ [o] }
  | 9 => (embedded? budget f.value readRange?).map fun r =>
    { d with reservedRanges := d.reservedRanges ++ [r] }
  | 10 => (text? f.value).map fun n => { d with reservedNames := d.reservedNames ++ [n] }
  | _ => skip budget f.value d

def readDeclaredMessage? : (budget : Nat) → Bytes → Option Message
  | 0, bs => readMessage? (readMessageField? 0 fun _ => none) {} bs
  | left + 1, bs => readMessage? (readMessageField? (left + 1) (readDeclaredMessage? left)) {} bs

def readMethod? (budget : Nat) : Bytes → Option Method :=
  readMessage? (fun d f => match f.number with
    | 1 => (text? f.value).map ({ d with name := · })
    | 2 => (text? f.value).map ({ d with input := · })
    | 3 => (text? f.value).map ({ d with output := · })
    | 4 => (mergeOptions? .method d.options budget f.value).map ({ d with options := · })
    | 5 => (flag? f.value).map ({ d with clientStreaming := · })
    | 6 => (flag? f.value).map ({ d with serverStreaming := · })
    | _ => skip budget f.value d) {}

def readService? (budget : Nat) : Bytes → Option Service :=
  readMessage? (fun d f => match f.number with
    | 1 => (text? f.value).map ({ d with name := · })
    | 2 => (embedded? budget f.value readMethod?).map fun m => { d with methods := d.methods ++ [m] }
    | 3 => (mergeOptions? .service d.options budget f.value).map ({ d with options := · })
    | _ => skip budget f.value d) {}

/-- Reads a place in a source file, of which nothing is kept. -/
def readLocation? (budget : Nat) : Bytes → Option Unit :=
  readMessage? (fun _ f => match f.number with
    | 1 | 2 => (int32s? f.value).map fun _ => ()
    | 3 | 4 | 6 => (text? f.value).map fun _ => ()
    | _ => skip budget f.value ()) ()

/-- Reads the places of declarations in a source file, of which nothing is kept. -/
def readSourceInfo? (budget : Nat) : Bytes → Option Unit :=
  readMessage? (fun _ f => match f.number with
    | 1 => embedded? budget f.value readLocation?
    | _ => skip budget f.value ()) ()

def readFile? (budget : Nat) : Bytes → Option File :=
  readMessage? (fun d f => match f.number with
    | 1 => (text? f.value).map ({ d with name := · })
    | 2 => (text? f.value).map ({ d with package := · })
    | 3 => (text? f.value).map fun n => { d with imports := d.imports ++ [n] }
    | 4 => (embedded? budget f.value readDeclaredMessage?).map fun m =>
      { d with messages := d.messages ++ [m] }
    | 5 => (embedded? budget f.value readEnum?).map fun e => { d with enums := d.enums ++ [e] }
    | 6 => (embedded? budget f.value readService?).map fun s => { d with services := d.services ++ [s] }
    | 7 => (embedded? budget f.value readField?).map fun x => { d with extensions := d.extensions ++ [x] }
    | 8 => (mergeOptions? .file d.options budget f.value).map ({ d with options := · })
    | 9 => (embedded? budget f.value readSourceInfo?).map fun _ => d
    | 10 => (int32s? f.value).map fun ns => { d with publicImports := d.publicImports ++ ns }
    | 11 => (int32s? f.value).map fun ns => { d with weakImports := d.weakImports ++ ns }
    | 12 => (text? f.value).map ({ d with dialect := some · })
    | _ => skip budget f.value d) {}

/-- How deeply messages may be nested in a descriptor set. -/
def nestingBudget : Nat := 100

def readSet? : Bytes → Option (List File) :=
  readMessage? (fun files f => match f.number with
    | 1 => (embedded? nestingBudget f.value readFile?).map fun file => files ++ [file]
    | _ => skip nestingBudget f.value files) []

end SchemaTree.Descriptor
