/-!
# Characters of a text

The characters of a text are decoded from its bytes. One pass over the bytes does, so that the characters
of a long text can be had wherever it is evaluated.
-/

namespace SchemaTree.Text

/-- The characters that bytes in UTF-8 stand for. Of the one that has been started, `more` bytes are to
come, and those before them make up `high`. -/
def decodeFrom (high : Nat) : (more : Nat) → List UInt8 → List Char
  | _, [] => []
  | 0, b :: bs =>
    let n := b.toNat
    if n < 0x80 then Char.ofNat n :: decodeFrom 0 0 bs
    else if n < 0xe0 then decodeFrom (n % 32) 1 bs
    else if n < 0xf0 then decodeFrom (n % 16) 2 bs
    else decodeFrom (n % 8) 3 bs
  | 1, b :: bs => Char.ofNat (64 * high + b.toNat % 64) :: decodeFrom 0 0 bs
  | more + 2, b :: bs => decodeFrom (64 * high + b.toNat % 64) (more + 1) bs

def characters (text : String) : List Char := decodeFrom 0 0 text.toUTF8.data.toList

end SchemaTree.Text
