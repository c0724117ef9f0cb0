import SchemaTree.Text.Integer

/-!
# Failures of loading

The causes for which loading files fails, with the message of each. Failures to read or to parse one
file are recoverable: a run over many files may skip that file and go on.
-/

namespace SchemaTree

inductive Failure
  /-- The file could not be read; `reason` is the text of the system. -/
  | unreadable (path reason : String)
  /-- The source does not compile. -/
  | unparsable (path reason : String)
  /-- The bytes are no descriptor set. -/
  | undecodable (reason : String)
  /-- The files of a descriptor set do not fit together. -/
  | unlinkable (reason : String)
  /-- Something refers to a declaration that does not exist. -/
  | unresolved (file entity details : String)
  /-- Messages are nested too deeply. -/
  | tooDeep (file entity : String) (limit : Nat)
  /-- There was nothing to load. -/
  | noFiles
  /-- Something that cannot happen did. -/
  | unexpected (reason : String)
deriving DecidableEq, Repr

namespace Failure

def message : Failure → String
  | unreadable path reason => "failed to read file '" ++ path ++ "': " ++ reason
  | unparsable path reason => "failed to parse proto file '" ++ path ++ "': " ++ reason
  | undecodable reason => "failed to decode FileDescriptorSet: " ++ reason
  | unlinkable reason => "failed to build descriptor pool: " ++ reason
  | unresolved file entity details =>
    "unresolved reference in '" ++ file ++ "' at '" ++ entity ++ "': " ++ details
  | tooDeep file entity limit =>
    "message nesting in '" ++ file ++ "' exceeds " ++ Text.natText limit ++ " levels at '" ++ entity ++ "'"
  | noFiles => "no proto files found in input"
  | unexpected reason => "internal error: " ++ reason

/-- Whether a run over many files may skip the file and go on. -/
def isRecoverable : Failure → Bool
  | unreadable .. | unparsable .. | undecodable .. => true
  | _ => false

end Failure
end SchemaTree
