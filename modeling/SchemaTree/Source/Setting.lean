import SchemaTree.Source.Literal
import SchemaTree.Token.Parser

/-!
# Option settings

An option is set by a dotted name, whose parts may be extensions in parentheses, and a value. A field
has its settings in brackets; other declarations have statements of their own.
-/

namespace SchemaTree.Source

open Descriptor (NamePart Options)
open Token (Parser)
open Token.Parser

def namePart : Parser NamePart := do
  if ← accept '(' then
    let name ← typeName
    symbol ')'
    pure ⟨name, true⟩
  else pure ⟨← word, false⟩

def moreNameParts : (fuel : Nat) → Parser (List NamePart)
  | 0 => refuse
  | fuel + 1 => do
    if ← accept '.' then
      let part ← namePart
      pure (part :: (← moreNameParts fuel))
    else pure []

def literal : Parser Literal := do
  match ← peek with
  | some (.string _) => pure (.string (← string))
  | _ =>
    match ← next with
    | .word text => pure (.word text)
    | .integer n => pure (.integer false n)
    | .float bits => pure (.float false bits)
    | .aggregate text => pure (.aggregate text)
    | .symbol '-' =>
      match ← next with
      | .integer n => pure (.integer true n)
      | .float bits => pure (.float true bits)
      | .word "inf" => pure (.word "-inf")
      | .word "nan" => pure (.word "-nan")
      | _ => refuse
    | _ => refuse

structure Setting where
  name : List NamePart
  value : Literal

/-- Takes an option: its name, an equals sign and its value. -/
def setting : Parser Setting := do
  let first ← namePart
  let more ← moreNameParts ((← remaining) + 1)
  symbol '='
  pure ⟨first :: more, ← literal⟩

def settings : Parser (List Setting) := do
  if ← accept '[' then
    let items ← separated setting
    symbol ']'
    pure items
  else pure []

/-- The options that some settings make up, none if there is no setting. -/
def optionsOf (settings : List Setting) : Parser (Option Options) := do
  match settings.mapM fun s => s.value.uninterpreted? s.name with
  | some [] => pure none
  | some items => pure (some { uninterpreted := items })
  | none => refuse

/-- Takes the rest of an option statement and adds the option to others. -/
def optionStatement (options : Option Options) : Parser (Option Options) := do
  let s ← setting
  symbol ';'
  match s.value.uninterpreted? s.name with
  | some o =>
    let options := options.getD {}
    pure (some { options with uninterpreted := options.uninterpreted ++ [o] })
  | none => refuse

/-- Splits off the first setting with a simple name. -/
def splitSetting (name : String) : List Setting → Option Literal × List Setting
  | [] => (none, [])
  | s :: rest =>
    if s.name = [⟨name, false⟩] then (some s.value, rest)
    else
      let (found, rest) := splitSetting name rest
      (found, s :: rest)

end SchemaTree.Source
