/-!
# Adler-32

The checksum at the end of a compressed stream: the sum of the octets plus one, and the sum of
those sums, both modulo 65521.
-/

namespace FaxClient.Zlib

structure Adler32 where
  sum : UInt32
  sums : UInt32

namespace Adler32

def empty : Adler32 := ⟨1, 0⟩

def add (c : Adler32) (b : UInt8) : Adler32 :=
  let sum := (c.sum + b.toUInt32) % 65521
  ⟨sum, (c.sums + sum) % 65521⟩

def value (c : Adler32) : Nat := c.sums.toNat * 65536 + c.sum.toNat

end Adler32

end FaxClient.Zlib
