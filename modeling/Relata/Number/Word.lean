/-! # Words of 64 bits

The whole numbers that a word of 64 bits holds, with a sign and without one.
-/

namespace Relata.Word

def holdsSigned (n : Int) : Bool :=
  -0x8000000000000000 ≤ n && n < 0x8000000000000000

def holds (n : Nat) : Bool :=
  n < 0x10000000000000000

end Relata.Word
