import SchemaTree.Descriptor.Reader
import SchemaTree.Options.Aggregate

/-!
# Interpreting options

Interpreting the options of a declaration looks up every uninterpreted option by the parts of its name,
reads its value as the type of the option demands, and sets it in the options message. The result is
read back as known options, so that what remains of extensions is that they were right.
-/

namespace SchemaTree.Options

open Descriptor
open Pool (Declaration View)

/-! ### One option -/

/-- What options are interpreted with: the types of options messages, where extensions are looked up,
and from which scope. -/
structure Context where
  types : List Declaration
  view : View
  scope : String

namespace Context

def slot? (c : Context) (type : MessageType) (part : NamePart) : Option Slot :=
  if part.isExtension then (c.view.resolve? .extension c.scope part.text).bind type.extensionSlot?
  else type.slot? part.text

def value? (c : Context) (slot : Slot) (o : UninterpretedOption) : Option Wire.Value :=
  if slot.holdsMessages then do
    let contents ← readAggregate? c.types (← slot.type? c.types) (← o.aggregate)
    some (slot.messageValue contents)
  else scalarValue? c.types slot o

/-- Sets an option, given the parts of its name that have not been followed yet; all parts but the last
lead into a message. An option without a name sets nothing. -/
def set? (c : Context) (o : UninterpretedOption) :
    MessageType → List NamePart → Content → Option Content
  | _, [], content => some content
  | type, [part], content => do
    let slot ← c.slot? type part
    type.add? c.types slot [← c.value? slot o] content
  | type, part :: more, content => do
    let slot ← c.slot? type part
    if slot.isRepeated || !slot.holdsMessages then none
    else
      let inner ← slot.type? c.types
      let innerContent ← inner.readContent? c.types (content.message slot)
      let innerContent ← c.set? o inner more innerContent
      some (type.assign slot [slot.messageValue (inner.bytesOf c.types innerContent)] content)

/-- Interprets the options of a declaration, given the type of its options message. A field for
uninterpreted options is emptied; an extension that has its number is not. -/
def interpret? (c : Context) (target : Target) (type : MessageType) (options : Options) :
    Option Options := do
  let start ← type.readContent? c.types (options.bytes target)
  let content ← options.uninterpreted.foldlM (fun content o => c.set? o type o.name content) start
  let hasList := (type.slotOfField? uninterpretedNumber).isSome
  let content := if hasList then content.erase uninterpretedNumber else content
  readOptions? target {} nestingBudget (type.bytesOf c.types content)

end Context

/-! ### All options of a file -/

/-- Where the options of a file are interpreted: the declarations it is linked with, those of the
standard options messages, and the files it can see. -/
structure Environment where
  declarations : List Declaration
  standard : List Declaration
  visible : List String

namespace Environment

/-- Interprets the options of a declaration in a scope. Options messages that are declared go before the
standard ones. -/
def settle? (env : Environment) (target : Target) (scope : String) :
    Option Options → Option (Option Options)
  | none => some none
  | some options =>
    let types := if (messageType? env.declarations target.messageName).isSome then env.declarations
      else env.standard
    let context : Context := ⟨types, ⟨env.declarations, env.visible⟩, scope⟩
    match messageType? types target.messageName with
    | some type => (context.interpret? target type options).map some
    | none => none

def settleField? (env : Environment) (scope : String) (d : Field) : Option Field := do
  some { d with options := ← env.settle? .field (qualify scope d.name) d.options }

def settleEnum? (env : Environment) (scope : String) (d : Enum) : Option Enum := do
  let values ← d.values.mapM fun v => do
    some { v with options := ← env.settle? .enumValue (qualify scope v.name) v.options }
  some { d with values, options := ← env.settle? .enum (qualify scope d.name) d.options }

def settleService? (env : Environment) (scope : String) (d : Service) : Option Service := do
  let fullName := qualify scope d.name
  let methods ← d.methods.mapM fun m => do
    some { m with options := ← env.settle? .method (qualify fullName m.name) m.options }
  some { d with methods, options := ← env.settle? .service fullName d.options }

/-- Interprets the options of a message and its parts, those of nested messages apart. -/
def settleMessage? (env : Environment) (fullName : String) (d : Message) : Option Message := do
  let oneofs ← d.oneofs.mapM fun o => do
    some { o with options := ← env.settle? .oneof (qualify fullName o.name) o.options }
  let extensionRanges ← d.extensionRanges.mapM fun r => do
    some { r with options := ← env.settle? .extensionRange fullName r.options }
  some { d with
    fields := ← d.fields.mapM (env.settleField? fullName)
    extensions := ← d.extensions.mapM (env.settleField? fullName)
    enums := ← d.enums.mapM (env.settleEnum? fullName)
    extensionRanges
    oneofs
    options := ← env.settle? .message fullName d.options }

def settleFile? (env : Environment) (d : File) : Option File := do
  some { d with
    messages := ← Message.traverseAll? env.settleMessage? d.package d.messages
    enums := ← d.enums.mapM (env.settleEnum? d.package)
    services := ← d.services.mapM (env.settleService? d.package)
    extensions := ← d.extensions.mapM (env.settleField? d.package)
    options := ← env.settle? .file d.package d.options }

end Environment
end SchemaTree.Options
