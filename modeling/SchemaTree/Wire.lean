import SchemaTree.Width

/-!
# The wire format

A message on the wire is a sequence of fields, each a key (the field number and the wire type) and a
value: a varint of at most ten bytes, four or eight bytes, bytes after their length, or a group that
ends with a key of its own. `readFields?` takes a byte sequence apart and `Field.bytes` writes one
field.
-/

namespace SchemaTree

abbrev Bytes := List UInt8

namespace Wire

inductive Value
  | varint (value : Nat)
  | fixed64 (value : Nat)
  | bytes (value : Bytes)
  /-- A group; `levels` says how deeply its fields are nested, the group itself included. -/
  | group (contents : Bytes) (levels : Nat)
  | fixed32 (value : Nat)
deriving DecidableEq, Repr, Inhabited

structure Field where
  number : Nat
  value : Value
deriving DecidableEq, Repr, Inhabited

/-! ### Reading -/

/-- Reads a varint from its byte at a place on. -/
def readVarintAt? (place : Nat) : Bytes → Option (Nat × Bytes)
  | [] => none
  | b :: rest =>
    if b < 128 then
      -- The tenth byte has room for one bit only.
      if place = 9 ∧ 1 < b then none else some (b.toNat, rest)
    else if place = 9 then none
    else (readVarintAt? (place + 1) rest).map fun (high, rest) => (b.toNat - 128 + 128 * high, rest)

def readVarint? (bs : Bytes) : Option (Nat × Bytes) := readVarintAt? 0 bs

/-- Reads a key: a field number from 1 on and a wire type, together in 32 bits. -/
def readKey? (bs : Bytes) : Option (Nat × Nat × Bytes) := do
  let (key, rest) ← readVarint? bs
  if key < Width.size 32 ∧ 8 ≤ key ∧ key % 8 < 6 then some (key / 8, key % 8, rest) else none

def take? (n : Nat) (bs : Bytes) : Option (Bytes × Bytes) :=
  let front := bs.take n
  if front.length = n then some (front, bs.drop n) else none

/-- The number whose bytes are given, the lowest first. -/
def littleEndian (bs : Bytes) : Nat := bs.foldr (fun b n => b.toNat + 256 * n) 0

def readBytes? (bs : Bytes) : Option (Bytes × Bytes) := do
  let (n, rest) ← readVarint? bs
  take? n rest

/-- Reads to the end of group `number`: how deeply groups are nested in it, the bytes from its last
key on, and the bytes after that key. At most `fuel` keys are read. -/
def readGroup? : (fuel number : Nat) → Bytes → Option (Nat × Bytes × Bytes)
  | 0, _, _ => none
  | fuel + 1, number, bs => do
    let (inner, type, rest) ← readKey? bs
    match type with
    | 0 => readGroup? fuel number (← readVarint? rest).2 >>= scalar
    | 1 => readGroup? fuel number (← take? 8 rest).2 >>= scalar
    | 2 => readGroup? fuel number (← readBytes? rest).2 >>= scalar
    | 3 =>
      let (levels, _, rest) ← readGroup? fuel inner rest
      let (more, rest) ← readGroup? fuel number rest
      some (max (levels + 1) more, rest)
    -- The last key of a group repeats the number of its first.
    | 4 => if inner = number then some (0, bs, rest) else none
    | 5 => readGroup? fuel number (← take? 4 rest).2 >>= scalar
    | _ => none
where
  /-- A field that is no group counts as one level inside the group. -/
  scalar : Nat × Bytes × Bytes → Option (Nat × Bytes × Bytes)
    | (levels, rest) => some (max 1 levels, rest)

def readField? (bs : Bytes) : Option (Field × Bytes) := do
  let (number, type, rest) ← readKey? bs
  match type with
  | 0 =>
    let (v, rest) ← readVarint? rest
    some (⟨number, .varint v⟩, rest)
  | 1 =>
    let (v, rest) ← take? 8 rest
    some (⟨number, .fixed64 (littleEndian v)⟩, rest)
  | 2 =>
    let (v, rest) ← readBytes? rest
    some (⟨number, .bytes v⟩, rest)
  | 3 =>
    let (levels, last, after) ← readGroup? rest.length number rest
    some (⟨number, .group (rest.take (rest.length - last.length)) (levels + 1)⟩, after)
  | 5 =>
    let (v, rest) ← take? 4 rest
    some (⟨number, .fixed32 (littleEndian v)⟩, rest)
  | _ => none

/-- Reads at most `fuel` fields, up to the end of the bytes. -/
def readFieldsWithin? : Nat → Bytes → Option (List Field)
  | _, [] => some []
  | 0, _ => none
  | fuel + 1, bs => do
    let (field, rest) ← readField? bs
    let fields ← readFieldsWithin? fuel rest
    some (field :: fields)

def readFields? (bs : Bytes) : Option (List Field) := readFieldsWithin? bs.length bs

/-- The varints that a byte sequence consists of, at most `fuel` of them. -/
def readVarintsWithin? : Nat → Bytes → Option (List Nat)
  | _, [] => some []
  | 0, _ => none
  | fuel + 1, bs => do
    let (v, rest) ← readVarint? bs
    let vs ← readVarintsWithin? fuel rest
    some (v :: vs)

def readVarints? (bs : Bytes) : Option (List Nat) := readVarintsWithin? bs.length bs

/-- The numbers of `size` bytes each that a byte sequence consists of, at most `fuel` of them. -/
def readFixedWithin? (size : Nat) : Nat → Bytes → Option (List Nat)
  | _, [] => some []
  | 0, _ => none
  | fuel + 1, bs => do
    let (v, rest) ← take? size bs
    let vs ← readFixedWithin? size fuel rest
    some (littleEndian v :: vs)

/-- The numbers of `size` bytes each that a byte sequence consists of. -/
def readFixed? (size : Nat) (bs : Bytes) : Option (List Nat) := readFixedWithin? size bs.length bs

/-- The text that bytes encode in UTF-8. -/
def utf8? (bs : Bytes) : Option String := String.fromUTF8? ⟨bs.toArray⟩

/-! ### Numbers in varints -/

/-- The 32-bit number with sign in the low half of a varint. -/
def int32 (v : Nat) : Int := Int.bmod v (Width.size 32)

/-- The 64-bit number with sign in a varint. -/
def int64 (v : Nat) : Int := Int.bmod v (Width.size 64)

/-- The varint of a number with sign, in two's complement of 64 bits. -/
def ofInt (n : Int) : Nat := (n % (Width.size 64 : Int)).toNat

/-- A number with sign in zigzag order: 0, -1, 1, -2, ... -/
def zigzag (n : Int) : Nat := if 0 ≤ n then 2 * n.toNat else 2 * (-n).toNat - 1

/-! ### Writing -/

/-- The bytes of a varint, at most `fuel` of them. -/
def varintBytesWithin : Nat → Nat → Bytes
  | 0, _ => []
  | fuel + 1, n =>
    if n < 128 then [n.toUInt8] else (n % 128 + 128).toUInt8 :: varintBytesWithin fuel (n / 128)

/-- The bytes of a varint below `2 ^ 64`. -/
def varintBytes (n : Nat) : Bytes := varintBytesWithin 10 n

/-- The low `count` bytes of a number, the lowest first. -/
def fixedBytes : (count n : Nat) → Bytes
  | 0, _ => []
  | count + 1, n => (n % 256).toUInt8 :: fixedBytes count (n / 256)

def keyBytes (number type : Nat) : Bytes := varintBytes (8 * number + type)

def lengthBytes (bs : Bytes) : Bytes := varintBytes bs.length ++ bs

/-- The bytes of a text in UTF-8. -/
def textBytes (s : String) : Bytes := s.toUTF8.data.toList

def Field.bytes (field : Field) : Bytes :=
  match field.value with
  | .varint v => keyBytes field.number 0 ++ varintBytes v
  | .fixed64 v => keyBytes field.number 1 ++ fixedBytes 8 v
  | .bytes v => keyBytes field.number 2 ++ lengthBytes v
  | .group v _ => keyBytes field.number 3 ++ v ++ keyBytes field.number 4
  | .fixed32 v => keyBytes field.number 5 ++ fixedBytes 4 v

def bytesOf (fields : List Field) : Bytes := fields.flatMap Field.bytes

end Wire
end SchemaTree
