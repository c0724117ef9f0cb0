/-!
# Binary floating point and its decimal text

A binary interchange format is given by the widths of its two fields. `decode` reads a bit pattern as
an exact number, `shortest` finds the decimal with the fewest digits that rounds back to a number,
and `round` takes a decimal to the nearest number of a format, a half going to the even one.
Everything is exact arithmetic on natural numbers.
-/

namespace SchemaTree.Ieee

/-! ### Formats -/

/-- A binary interchange format: one sign bit, an exponent field and a fraction field. -/
structure Format where
  exponentBits : Nat
  fractionBits : Nat
deriving DecidableEq, Repr

def binary32 : Format := ⟨8, 23⟩

def binary64 : Format := ⟨11, 52⟩

namespace Format

def hidden (f : Format) : Nat := Nat.pow 2 f.fractionBits

/-- The exponent field of infinities and of values that are no number. -/
def topField (f : Format) : Nat := Nat.pow 2 f.exponentBits - 1

/-- The power of two that the lowest fraction bit stands for in the smallest numbers. -/
def lowest (f : Format) : Int := 2 - (Nat.pow 2 (f.exponentBits - 1) : Nat) - f.fractionBits

def signBit (f : Format) : Nat := Nat.pow 2 (f.exponentBits + f.fractionBits)

def infinity (f : Format) : Nat := f.topField * f.hidden

end Format

/-! ### Numbers -/

/-- What a bit pattern stands for; `finite` is `significand * 2 ^ exponent` with a sign. -/
inductive Number
  | nan
  | infinite (negative : Bool)
  | finite (negative : Bool) (significand : Nat) (exponent : Int)
deriving DecidableEq, Repr

/-- Reads a bit pattern. -/
def decode (f : Format) (bits : Nat) : Number :=
  let negative := bits / f.signBit % 2 == 1
  let field := bits / f.hidden % Nat.pow 2 f.exponentBits
  let fraction := bits % f.hidden
  if field = f.topField then
    if fraction = 0 then .infinite negative else .nan
  else if field = 0 then
    .finite negative fraction f.lowest
  else
    .finite negative (f.hidden + fraction) (f.lowest + ((field - 1 : Nat) : Int))

def isNaN (f : Format) (bits : Nat) : Bool := decode f bits == .nan

def isZero (f : Format) (bits : Nat) : Bool := bits % f.signBit == 0

/-- Whether two bit patterns stand for equal numbers: the two zeros do, and what is no number is unlike
everything. -/
def equal (f : Format) (a b : Nat) : Bool := !isNaN f a && (a == b || (isZero f a && isZero f b))

/-! ### The shortest decimal -/

structure Ratio where
  num : Nat
  den : Nat
deriving Repr

/-- `n * 2 ^ e` as a quotient. -/
def Ratio.scaled (n : Nat) (e : Int) : Ratio :=
  match e with
  | .ofNat k => ⟨n * Nat.pow 2 k, 1⟩
  | .negSucc k => ⟨n, Nat.pow 2 (k + 1)⟩

/-- A quotient in units of `10 ^ k`. -/
def Ratio.inUnits (r : Ratio) (k : Int) : Ratio :=
  match k with
  | .ofNat j => ⟨r.num, r.den * Nat.pow 10 j⟩
  | .negSucc j => ⟨r.num * Nat.pow 10 (j + 1), r.den⟩

/-- The value of a positive finite number and the ends of the interval that rounds to it. -/
structure Neighbourhood where
  value : Ratio
  lower : Ratio
  upper : Ratio
  /-- The ends themselves round to the number. -/
  closed : Bool

/-- The interval of reals that round to `m * 2 ^ e`; below a power of two it is half as wide. -/
def Neighbourhood.of (f : Format) (m : Nat) (e : Int) : Neighbourhood :=
  let below := if m = f.hidden ∧ f.lowest < e then 4 * m - 1 else 4 * m - 2
  { value := .scaled (4 * m) (e - 2)
    lower := .scaled below (e - 2)
    upper := .scaled (4 * m + 2) (e - 2)
    closed := m % 2 == 0 }

/-- Whether the whole number `d` of units `10 ^ k` lies in the interval. -/
def Neighbourhood.holds (n : Neighbourhood) (k : Int) (d : Nat) : Bool :=
  let lower := n.lower.inUnits k
  let upper := n.upper.inUnits k
  if n.closed then lower.num ≤ d * lower.den && d * upper.den ≤ upper.num
  else lower.num < d * lower.den && d * upper.den < upper.num

/-- The multiple of `10 ^ k` nearest to the value among its two neighbours that lie in the interval;
of two that are as near it is the greater one. -/
def Neighbourhood.onGrid (n : Neighbourhood) (k : Int) : Option Nat :=
  let value := n.value.inUnits k
  let below := value.num / value.den
  let rest := value.num % value.den
  let low := n.holds k below
  let high := n.holds k (below + 1)
  if low && high then if 2 * rest < value.den then some below else some (below + 1)
  else if low then some below
  else if high then some (below + 1)
  else none

/-- Tries ever finer decimal grids, at most `fuel` of them. -/
def Neighbourhood.search (n : Neighbourhood) : Nat → Int → Option (Nat × Int)
  | 0, _ => none
  | fuel + 1, k =>
    match n.onGrid k with
    | some d => some (d, k)
    | none => n.search fuel (k - 1)

/-- An upper bound of the decimal exponent of `m * 2 ^ e`. -/
def decimalBound (m : Nat) (e : Int) : Int := (Nat.log2 m + 1 + e) * 30103 / 100000 + 2

/-- The digits `d` and exponent `k` of the decimal `d * 10 ^ k` with the fewest digits that rounds to
`m * 2 ^ e`, and of those the nearest. -/
def shortest (f : Format) (m : Nat) (e : Int) : Nat × Int :=
  ((Neighbourhood.of f m e).search 40 (decimalBound m e)).getD (0, 0)

/-- Digits with the decimal point in place, without an exponent. -/
def positional (digits : Nat) (k : Int) : String :=
  let ds := Nat.toDigits 10 digits
  match k with
  | .ofNat j => String.ofList (ds ++ List.replicate j '0')
  | .negSucc j =>
    let places := j + 1
    if places < ds.length then
      String.ofList (ds.take (ds.length - places) ++ '.' :: ds.drop (ds.length - places))
    else
      String.ofList ('0' :: '.' :: (List.replicate (places - ds.length) '0' ++ ds))

/-- The text of a bit pattern: the shortest decimal, never with an exponent. -/
def text (f : Format) (bits : Nat) : String :=
  match decode f bits with
  | .nan => "NaN"
  | .infinite negative => if negative then "-inf" else "inf"
  | .finite negative m e =>
    let magnitude := if m = 0 then "0" else
      let (digits, k) := shortest f m e
      positional digits k
    if negative then "-" ++ magnitude else magnitude

/-! ### Reading decimals -/

/-- The quotient rounded to a whole number, a half going to the even one. -/
def Ratio.nearest (r : Ratio) : Nat :=
  let below := r.num / r.den
  let rest := r.num % r.den
  if 2 * rest < r.den then below
  else if r.den < 2 * rest then below + 1
  else if below % 2 = 0 then below else below + 1

/-- The power of two of the last place of `r` in a format, never below the lowest. -/
def Format.lastPlace (f : Format) (r : Ratio) : Int :=
  let guess : Int := (Nat.log2 r.num : Int) - (Nat.log2 r.den : Int) - (f.fractionBits : Int)
  let tooHigh : Bool := match guess with
    | .ofNat k => r.num < f.hidden * (r.den * Nat.pow 2 k)
    | .negSucc k => r.num * Nat.pow 2 (k + 1) < f.hidden * r.den
  max f.lowest (if tooHigh then guess - 1 else guess)

/-- The bit pattern, without sign, of the number nearest to a positive quotient. -/
def Format.roundRatio (f : Format) (r : Ratio) : Nat :=
  let place := f.lastPlace r
  let scaled : Ratio := match place with
    | .ofNat k => ⟨r.num, r.den * Nat.pow 2 k⟩
    | .negSucc k => ⟨r.num * Nat.pow 2 (k + 1), r.den⟩
  min f.infinity ((place - f.lowest).toNat * f.hidden + scaled.nearest)

/-- The bit pattern nearest to `± digits * 10 ^ k`; magnitudes from `10 ^ 400` on are infinite and
those below `10 ^ (-400)` are zero in every format here. -/
def round (f : Format) (negative : Bool) (digits : Nat) (k : Int) : Nat :=
  let sign := if negative then f.signBit else 0
  let size : Int := (Nat.toDigits 10 digits).length + k
  let magnitude :=
    if digits = 0 ∨ size < -400 then 0
    else if 400 < size then f.infinity
    else match k with
      | .ofNat j => f.roundRatio ⟨digits * Nat.pow 10 j, 1⟩
      | .negSucc j => f.roundRatio ⟨digits, Nat.pow 10 (j + 1)⟩
  sign + magnitude

/-- The bit pattern of a value that is no number, as reading its name gives it. -/
def Format.quietNaN (f : Format) (negative : Bool) : Nat :=
  (if negative then f.signBit else 0) + f.infinity + f.hidden / 2

/-- The bit pattern in one format nearest to what a bit pattern of another stands for. -/
def convert (source target : Format) (bits : Nat) : Nat :=
  let signed (negative : Bool) (magnitude : Nat) := (if negative then target.signBit else 0) + magnitude
  match decode source bits with
  | .nan => target.quietNaN false
  | .infinite negative => signed negative target.infinity
  | .finite negative m e => signed negative (if m = 0 then 0 else target.roundRatio (.scaled m e))

/-- The value of decimal digits after `start`. -/
def digitsValue (start : Nat) (digits : List Char) : Nat :=
  digits.foldl (fun n c => 10 * n + (c.toNat - '0'.toNat)) start

/-- Reads an exponent part, `e` or `E`, a sign and at least one digit; no text is the exponent 0. -/
def readExponent? : List Char → Option Int
  | [] => some 0
  | c :: rest =>
    if c ≠ 'e' ∧ c ≠ 'E' then none else
      let (negative, digits) := match rest with
        | '-' :: r => (true, r)
        | '+' :: r => (false, r)
        | r => (false, r)
      if digits.isEmpty || !digits.all Char.isDigit then none
      else
        let n : Int := digitsValue 0 digits
        some (if negative then -n else n)

/-- Reads digits with an optional point and exponent; at least one digit stands before the exponent. -/
def readMagnitude? (cs : List Char) : Option (Nat × Int) :=
  let whole := cs.takeWhile Char.isDigit
  let rest := cs.dropWhile Char.isDigit
  let (fraction, rest) := match rest with
    | '.' :: r => (r.takeWhile Char.isDigit, r.dropWhile Char.isDigit)
    | r => ([], r)
  if whole.isEmpty && fraction.isEmpty then none
  else (readExponent? rest).map fun e =>
    (digitsValue (digitsValue 0 whole) fraction, e - (fraction.length : Int))

/-- Reads a number in a format: an optional sign, then a decimal or one of the words `inf`,
`infinity` and `nan` in any case; nothing may follow. -/
def read? (f : Format) (text : String) : Option Nat :=
  let (negative, cs) := match text.toList with
    | '-' :: r => (true, r)
    | '+' :: r => (false, r)
    | r => (false, r)
  let word := cs.map Char.toLower
  if word = ['i', 'n', 'f'] ∨ word = ['i', 'n', 'f', 'i', 'n', 'i', 't', 'y'] then
    some ((if negative then f.signBit else 0) + f.infinity)
  else if word = ['n', 'a', 'n'] then some (f.quietNaN negative)
  else (readMagnitude? cs).map fun (digits, k) => round f negative digits k

end SchemaTree.Ieee
