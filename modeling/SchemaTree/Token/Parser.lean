import SchemaTree.Token.Reader

/-!
# Readers of tokens

A reader takes tokens from the front of a list and gives a result, or nothing if the tokens do not fit.
Readers of one token, of names and of repeated items are here; the grammars are built from them.
-/

namespace SchemaTree.Token

/-- A reader of tokens: a result and the tokens after it, or nothing. -/
abbrev Parser := StateT (List Token) Option

namespace Parser

/-! ### Tokens -/

/-- No result. -/
def refuse : Parser α := fun _ => none

/-- The next token, which stays. -/
def peek : Parser (Option Token) := fun ts => some (ts.head?, ts)

def next : Parser Token
  | t :: ts => some (t, ts)
  | [] => none

def symbol (c : Char) : Parser Unit := do
  unless (← next) = .symbol c do refuse

def word : Parser String := do
  match ← next with
  | .word text => pure text
  | _ => refuse

def keyword (text : String) : Parser Unit := do
  unless (← next) = .word text do refuse

def accept (c : Char) : Parser Bool := do
  if (← peek) = some (.symbol c) then
    symbol c
    pure true
  else pure false

def acceptWord (text : String) : Parser Bool := do
  if (← peek) = some (.word text) then
    keyword text
    pure true
  else pure false

/-- The number of tokens left, which bounds every repetition. -/
def remaining : Parser Nat := fun ts => some (ts.length, ts)

/-- Takes strings one after the other and joins them. -/
def strings : (fuel : Nat) → Parser Bytes
  | 0 => pure []
  | fuel + 1 => do
    match ← peek with
    | some (.string value) =>
      let _ ← next
      pure (value ++ (← strings fuel))
    | _ => pure []

/-- Takes at least one string; adjacent strings are one. -/
def string : Parser Bytes := do
  match ← peek with
  | some (.string _) => strings (← remaining)
  | _ => refuse

/-- Takes a string that is UTF-8. -/
def text : Parser String := do
  match Wire.utf8? (← string) with
  | some s => pure s
  | none => refuse

def natural : Parser Nat := do
  match ← next with
  | .integer n | .prefixedInteger n => pure n
  | _ => refuse

/-- Takes a whole number with an optional minus sign that fits into 32 bits. -/
def int32 : Parser Int := do
  let negative ← accept '-'
  let n ← natural
  let value : Int := if negative then -n else n
  if Width.least 32 ≤ value ∧ value ≤ Width.greatest 32 then pure value else refuse

/-! ### Repetition -/

/-- Takes items with commas between them: the first has been taken. -/
def moreSeparated (item : Parser α) : (fuel : Nat) → Parser (List α)
  | 0 => refuse
  | fuel + 1 => do
    if ← accept ',' then
      let a ← item
      pure (a :: (← moreSeparated item fuel))
    else pure []

def separated (item : Parser α) : Parser (List α) := do
  let a ← item
  pure (a :: (← moreSeparated item ((← remaining) + 1)))

/-- Takes items up to the closing brace, each changing what has been read. -/
def itemsWithin (item : σ → Parser σ) : (fuel : Nat) → σ → Parser σ
  | 0, _ => refuse
  | fuel + 1, s => do
    if ← accept '\x7d' then pure s else itemsWithin item fuel (← item s)

def block (item : σ → Parser σ) (start : σ) : Parser σ := do
  symbol '\x7b'
  itemsWithin item (← remaining) start

/-! ### Names -/

def moreParts : (fuel : Nat) → Parser String
  | 0 => pure ""
  | fuel + 1 => do
    if ← accept '.' then
      let part ← word
      pure ("." ++ part ++ (← moreParts fuel))
    else pure ""

def dottedName : Parser String := do
  let first ← word
  pure (first ++ (← moreParts (← remaining)))

/-- Takes the name of a type: a dotted name, perhaps with a leading dot. -/
def typeName : Parser String := do
  if ← accept '.' then pure ("." ++ (← dottedName)) else dottedName

end Parser
end SchemaTree.Token
