import SchemaTree.Descriptor.Basic

/-!
# Equality of declared files is decidable

Messages hold messages, so two of them are compared part by part, and the messages nested in them in turn.
-/

namespace SchemaTree.Descriptor

mutual

def Message.decEq : (a b : Message) → Decidable (a = b)
  | ⟨name, fields, extensions, messages, enums, extensionRanges, oneofs, options, reservedRanges,
      reservedNames⟩,
    ⟨name', fields', extensions', messages', enums', extensionRanges', oneofs', options', reservedRanges',
      reservedNames'⟩ =>
    have : Decidable (messages = messages') := Message.decEqAll messages messages'
    decidable_of_iff
      (name = name' ∧ fields = fields' ∧ extensions = extensions' ∧ messages = messages' ∧
        enums = enums' ∧ extensionRanges = extensionRanges' ∧ oneofs = oneofs' ∧ options = options' ∧
        reservedRanges = reservedRanges' ∧ reservedNames = reservedNames')
      (Iff.of_eq (Message.mk.injEq ..).symm)

def Message.decEqAll : (as bs : List Message) → Decidable (as = bs)
  | [], [] => .isTrue rfl
  | [], _ :: _ => .isFalse (List.cons_ne_nil _ _).symm
  | _ :: _, [] => .isFalse (List.cons_ne_nil _ _)
  | a :: as, b :: bs =>
    have : Decidable (a = b) := Message.decEq a b
    have : Decidable (as = bs) := Message.decEqAll as bs
    decidable_of_iff (a = b ∧ as = bs) (Iff.of_eq (List.cons.injEq ..).symm)

end

instance : DecidableEq Message := Message.decEq

deriving instance DecidableEq for File

end SchemaTree.Descriptor
