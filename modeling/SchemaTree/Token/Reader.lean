import SchemaTree.Text.Characters
import SchemaTree.Token.Basic

/-!
# Reading tokens

`Token.readSource?` takes a schema source apart, and `Token.readLiteral?` a message literal. They
differ in their comments (`//` and `/* */` against `#`) and in whether a number may end in `f`; a
literal inside a source, from a brace after an equals sign to the brace that closes it, follows both
sets of rules and becomes one token.

A whole number is in base 8 if an octal digit follows a zero in front. Two rules for a zero in front that
makes no base are easily missed: in a source it is zero, whatever digits come after it, and a word may
follow at once; in a message literal on its own all digits count in base 10.
-/

namespace SchemaTree.Token

/-- What a text may contain besides the common tokens. -/
structure Style where
  slashComments : Bool
  hashComments : Bool
  floatSuffix : Bool
  /-- Whole numbers fit into 64 bits, and a zero in front that makes no base stands for itself. -/
  sizedIntegers : Bool
deriving DecidableEq, Repr

def Style.source : Style := ⟨true, false, false, true⟩

/-- The rules of a message literal inside a schema source. -/
def Style.embedded : Style := ⟨true, true, true, true⟩

def Style.literal : Style := ⟨false, true, true, false⟩

/-! ### Comments -/

/-- Skips to the end of the line. -/
def skipLine (cs : List Char) : List Char := cs.dropWhile (· != '\n')

/-- Skips to the end of a block comment; comments do not nest. -/
def skipBlock? : List Char → Option (List Char)
  | '*' :: '/' :: rest => some rest
  | '/' :: '*' :: _ => none
  | _ :: rest => skipBlock? rest
  | [] => none

/-! ### Strings -/

def simpleEscape? : Char → Option Char
  | 'a' => some '\x07'
  | 'b' => some '\x08'
  | 'f' => some '\x0c'
  | 'n' => some '\n'
  | 'r' => some '\r'
  | 't' => some '\t'
  | 'v' => some '\x0b'
  | '?' => some '?'
  | '\\' => some '\\'
  | '\'' => some '\''
  | '"' => some '"'
  | _ => none

/-- Up to `most` leading characters that satisfy a test. -/
def upTo (most : Nat) (test : Char → Bool) (cs : List Char) : List Char := (cs.take most).takeWhile test

/-- The bytes of a Unicode character, if there is one with the number. -/
def characterBytes? (n : Nat) : Option Bytes :=
  if n.isValidChar then some (Wire.textBytes (String.singleton (Char.ofNat n))) else none

def readEscape? : List Char → Option (Bytes × List Char)
  | [] => none
  | c :: rest =>
    if c = 'x' ∨ c = 'X' then
      let digits := upTo 2 (Text.hexValue? · |>.isSome) rest
      if digits.isEmpty then none
      else (Text.valueInBase? 16 Text.hexValue? digits).map fun n => ([n.toUInt8], rest.drop digits.length)
    else if c = 'u' ∨ c = 'U' then
      let count := if c = 'u' then 4 else 8
      let digits := upTo count (Text.hexValue? · |>.isSome) rest
      if digits.length ≠ count then none
      else do
        let n ← Text.valueInBase? 16 Text.hexValue? digits
        some (← characterBytes? n, rest.drop count)
    else if (Text.octalValue? c).isSome then
      let digits := upTo 3 (Text.octalValue? · |>.isSome) (c :: rest)
      match Text.valueInBase? 8 Text.octalValue? digits with
      | some n => if n < 256 then some ([n.toUInt8], (c :: rest).drop digits.length) else none
      | none => none
    else (simpleEscape? c).map fun d => ([d.toNat.toUInt8], rest)

/-- Reads the inside of a string up to its closing quote. At most `fuel` characters are read. -/
def readString? (quote : Char) : (fuel : Nat) → List Char → Option (Bytes × List Char)
  | 0, _ => none
  | _, [] => none
  | fuel + 1, c :: rest =>
    if c = quote then some ([], rest)
    else if c = '\n' ∨ c = '\x00' then none
    else if c = '\\' then do
      let (bytes, rest) ← readEscape? rest
      let (more, rest) ← readString? quote fuel rest
      some (bytes ++ more, rest)
    else do
      let (more, rest) ← readString? quote fuel rest
      some (Wire.textBytes (String.singleton c) ++ more, rest)

/-! ### Numbers -/

def exponentLength : List Char → Nat
  | c :: rest =>
    if c = 'e' ∨ c = 'E' then
      let sign := match rest with
        | '+' :: _ | '-' :: _ => 1
        | _ => 0
      let digits := ((rest.drop sign).takeWhile Char.isDigit).length
      if digits = 0 then 0 else 1 + sign + digits
    else 0
  | [] => 0

/-- The length of a number with a point or an exponent, without its suffix; zero if there is none. -/
def floatLength (cs : List Char) : Nat :=
  let whole := (cs.takeWhile Char.isDigit).length
  match cs.drop whole with
  | '.' :: rest =>
    let fraction := (rest.takeWhile Char.isDigit).length
    if whole + fraction = 0 then 0
    else whole + 1 + fraction + exponentLength (rest.drop fraction)
  | rest =>
    let exponent := exponentLength rest
    if whole = 0 ∨ exponent = 0 then 0 else whole + exponent

/-- Whether digits are a whole number that may take a suffix: zero, or no zero in front. -/
def takesSuffix (digits : List Char) : Bool :=
  match digits with
  | [] => false
  | ['0'] => true
  | c :: _ => c != '0'

/-- Whether a suffix for a floating point number comes next. -/
def hasSuffix : List Char → Bool
  | c :: _ => c == 'f' || c == 'F'
  | [] => false

/-- Reads a number with a point, an exponent or a suffix; `none` if there is none, and `some none` if
its suffix is not allowed. -/
def readFloat? (style : Style) (cs : List Char) : Option (Option (Token × List Char)) :=
  let plain := floatLength cs
  let digits := cs.takeWhile Char.isDigit
  -- Digits alone are a floating point number only if a suffix follows.
  let length := if plain = 0 ∧ takesSuffix digits ∧ hasSuffix (cs.drop digits.length)
    then digits.length else plain
  if length = 0 then none
  else
    let rest := cs.drop length
    let suffix := hasSuffix rest
    if suffix && !style.floatSuffix then some none
    else some <|
      (Ieee.read? Ieee.binary64 (String.ofList (cs.take length))).map fun bits =>
        (float bits, if suffix then rest.drop 1 else rest)

/-- The digits of a whole number, and what comes after them. -/
structure Numeral where
  hasPrefix : Bool
  /-- Nothing if there are digits that the base does not have. -/
  value : Option Nat
  rest : List Char

/-- The digits of a whole number: in base 16 after `0x`, in base 8 after a zero that an octal digit
follows, else in base 10. -/
def readNumeral? (cs : List Char) : Option Numeral :=
  let digits := cs.takeWhile Char.isDigit
  let rest := cs.drop digits.length
  match digits with
  | [] => none
  | '0' :: more =>
    let hex := (rest.drop 1).takeWhile (Text.hexValue? · |>.isSome)
    if more.isEmpty ∧ (rest.head? = some 'x' ∨ rest.head? = some 'X') ∧ !hex.isEmpty then
      some ⟨true, Text.valueInBase? 16 Text.hexValue? hex, rest.drop (1 + hex.length)⟩
    else if more.head?.any (Text.octalValue? · |>.isSome) then
      some ⟨true, Text.valueInBase? 8 Text.octalValue? more, rest⟩
    else some ⟨false, Text.readDigits? digits, rest⟩
  | _ => some ⟨false, Text.readDigits? digits, rest⟩

def wordFollows : List Char → Bool
  | c :: _ => startsWord c
  | [] => false

/-- Reads a whole number. No word may follow at once, but for a zero that stands for itself. -/
def readInteger? (style : Style) (cs : List Char) : Option (Token × List Char) := do
  let numeral ← readNumeral? cs
  -- What follows a zero in a source is a token of its own.
  if style.sizedIntegers && cs.head? = some '0' && !numeral.hasPrefix then some (integer 0, numeral.rest)
  else
    let value ← numeral.value
    if wordFollows numeral.rest then none
    else if style.sizedIntegers then
      if value < Width.size 64 then some (integer value, numeral.rest) else none
    else some (if numeral.hasPrefix then prefixedInteger value else integer value, numeral.rest)

/-! ### One token -/

def read? (style : Style) : List Char → Option (Option Token × List Char)
  | [] => none
  | c :: rest =>
    if isBlank c then some (none, rest)
    else if style.hashComments ∧ c = '#' then some (none, skipLine rest)
    else if style.slashComments ∧ c = '/' ∧ rest.head? = some '/' then some (none, skipLine rest)
    else if style.slashComments ∧ c = '/' ∧ rest.head? = some '*' then
      (skipBlock? (rest.drop 1)).map (none, ·)
    else if startsWord c then
      some (some (word (String.ofList (c :: rest.takeWhile continuesWord))), rest.dropWhile continuesWord)
    else if c = '"' ∨ c = '\'' then
      (readString? c (rest.length + 1) rest).map fun (bytes, rest) => (some (string bytes), rest)
    else match readFloat? style (c :: rest) with
      | some result => result.map fun (token, rest) => (some token, rest)
      | none =>
        if c.isDigit then (readInteger? style (c :: rest)).map fun (token, rest) => (some token, rest)
        else if isSymbol c then some (some (symbol c), rest)
        else none

/-! ### All tokens -/

/-- Reads at most `fuel` tokens, blanks and comments of a message literal. -/
def readLiteralWithin? : (fuel : Nat) → List Char → Option (List Token)
  | _, [] => some []
  | 0, _ => none
  | fuel + 1, cs => do
    let (token, rest) ← read? .literal cs
    let tokens ← readLiteralWithin? fuel rest
    some (token.toList ++ tokens)

def readLiteral? (text : String) : Option (List Token) :=
  let cs := Text.characters text
  readLiteralWithin? cs.length cs

/-- Where in a source the reader is. -/
inductive Place
  /-- Among declarations; the flag says that the last token is an equals sign. -/
  | plain (afterEquals : Bool)
  /-- In a message literal with some open braces, after some tokens, the last one first. -/
  | literal (depth : Nat) (printed : List String)

/-- Reads at most `fuel` tokens, blanks and comments of a source. -/
def readSourceWithin? : (fuel : Nat) → Place → List Char → Option (List Token)
  | _, .plain _, [] => some []
  | _, .literal .., [] => none
  | 0, _, _ => none
  | fuel + 1, .plain afterEquals, cs => do
    let (token, rest) ← read? .source cs
    match token with
    | none => readSourceWithin? fuel (.plain afterEquals) rest
    | some token =>
      if afterEquals ∧ token = symbol '\x7b' then readSourceWithin? fuel (.literal 0 []) rest
      else
        let tokens ← readSourceWithin? fuel (.plain (token == symbol '=')) rest
        some (token :: tokens)
  | fuel + 1, .literal depth printed, cs => do
    let (token, rest) ← read? .embedded cs
    match token with
    | none => readSourceWithin? fuel (.literal depth printed) rest
    | some token =>
      if token = symbol '\x7d' then
        match depth with
        | 0 =>
          let tokens ← readSourceWithin? fuel (.plain false) rest
          some (aggregate (String.intercalate " " printed.reverse) :: tokens)
        | depth + 1 => readSourceWithin? fuel (.literal depth (token.print :: printed)) rest
      else
        let depth := if token = symbol '\x7b' then depth + 1 else depth
        readSourceWithin? fuel (.literal depth (token.print :: printed)) rest

def readSource? (text : String) : Option (List Token) :=
  let cs := Text.characters text
  readSourceWithin? cs.length (.plain false) cs

end SchemaTree.Token
