/-!
# Numbers of a width

The numbers that fit into a count of bits, with a sign or without.
-/

namespace SchemaTree.Width

def size (bits : Nat) : Nat := Nat.pow 2 bits

def least (bits : Nat) : Int := -(size (bits - 1) : Int)

def greatest (bits : Nat) : Int := (size (bits - 1) : Int) - 1

def greatestUnsigned (bits : Nat) : Int := (size bits : Int) - 1

theorem size_pos (bits : Nat) : 0 < size bits := Nat.pow_pos (by decide)

theorem size_add (a b : Nat) : size (a + b) = size a * size b := Nat.pow_add 2 a b

end SchemaTree.Width
