import FaxClient.Filter
import FaxClient.Zlib.Adler32
import FaxClient.Zlib.Alphabet
import FaxClient.Zlib.Huffman

/-!
# Compression

The octets are gathered and compressed at the end, as one block with the fixed code.  Where three
octets were seen before, the latest place they were seen at is tried, and as many octets as agree
are copied from there; all others stand for themselves.
-/

namespace FaxClient.Zlib.Deflate

inductive Token where
  | literal (b : UInt8)
  | copy (length distance : Nat)
  deriving DecidableEq

def maxMatch : Nat := 258

def maxDistance : Nat := 32768

/-- How many octets from `i` on agree with those from `j` on, up to a limit. -/
def agreement (x : Array UInt8) (i j : Nat) : Nat → Nat
  | 0 => 0
  | limit + 1 =>
    if i < x.size ∧ x.getD i 0 = x.getD j 0 then agreement x (i + 1) (j + 1) limit + 1 else 0

/-- A number below 65536 for the three octets from `i` on. -/
def slot (x : Array UInt8) (i : Nat) : Nat :=
  let three := (x.getD i 0).toNat * 65536 + (x.getD (i + 1) 0).toNat * 256 +
    (x.getD (i + 2) 0).toNat
  three * 40503 % 65536

/-- The longest copy on offer at `i`, if it is worth it: `seen` holds for each slot one more than
the latest place of its octets. -/
def copyAt? (x : Array UInt8) (seen : Array Nat) (i : Nat) : Option (Nat × Nat) :=
  match seen.getD (slot x i) 0 with
  | 0 => none
  | j + 1 =>
    if j < i ∧ i - j ≤ maxDistance then
      let length := agreement x i j maxMatch
      if 3 ≤ length then some (length, i - j) else none
    else none

/-- Adds the tokens for the last `left` octets, of which the first `covered` belong to a copy
already taken. -/
def addTokens (x : Array UInt8) : Nat → Nat → Array Nat → Array Token → Array Token
  | 0, _, _, acc => acc
  | left + 1, covered, seen, acc =>
    let i := x.size - (left + 1)
    match covered with
    | more + 1 => addTokens x left more (seen.setIfInBounds (slot x i) (i + 1)) acc
    | 0 =>
      match copyAt? x seen i with
      | some (length, distance) =>
        addTokens x left (length - 1) (seen.setIfInBounds (slot x i) (i + 1))
          (acc.push (.copy length distance))
      | none =>
        addTokens x left 0 (seen.setIfInBounds (slot x i) (i + 1)) (acc.push (.literal (x.getD i 0)))

def tokens (x : Array UInt8) : Array Token := addTokens x x.size 0 (Array.replicate 65536 0) #[]

/-- The bits of a number, the lowest first. -/
def numberBits (width value : Nat) : List Bool := (List.range width).map value.testBit

def literalWord (symbol : Nat) : List Bool :=
  if symbol < 144 then Huffman.word 8 (symbol + 48)
  else if symbol < 256 then Huffman.word 9 (symbol + 256)
  else if symbol < 280 then Huffman.word 7 (symbol - 256)
  else Huffman.word 8 (symbol - 88)

def tokenBits : Token → List Bool
  | .literal b => literalWord b.toNat
  | .copy length distance =>
    let (i, least, extra) := rangeOf lengthRanges length
    let (j, nearest, more) := rangeOf distanceRanges distance
    literalWord (257 + i) ++ numberBits extra (length - least) ++ Huffman.word 5 j ++
      numberBits more (distance - nearest)

/-- Octets under construction: those complete, and the bits of the next, `count` in number. -/
structure Writer where
  out : Array UInt8
  bits : Nat
  count : Nat

def Writer.bit (w : Writer) (b : Bool) : Writer :=
  let bits := if b then w.bits + (1 <<< w.count) else w.bits
  if w.count = 7 then ⟨w.out.push bits.toUInt8, 0, 0⟩ else ⟨w.out, bits, w.count + 1⟩

def Writer.write (w : Writer) (bits : List Bool) : Writer := bits.foldl Writer.bit w

/-- All octets, the last one filled up with zeros. -/
def Writer.octets (w : Writer) : Array UInt8 :=
  if w.count = 0 then w.out else w.out.push w.bits.toUInt8

def header : Array UInt8 := #[0x78, 0x9C]

def stream (x : Array UInt8) : Array UInt8 :=
  let opened : Writer := (Writer.mk header 0 0).write [true, true, false]
  let body := (tokens x).foldl (fun w t => w.write (tokenBits t)) opened
  let out := (body.write (literalWord endOfBlock)).octets
  let check := (x.foldl Adler32.add Adler32.empty).value
  out ++ #[(check / 16777216).toUInt8, (check / 65536).toUInt8, (check / 256).toUInt8,
    check.toUInt8]

end FaxClient.Zlib.Deflate

namespace FaxClient.Zlib

def deflate : Filter where
  State := Array UInt8
  start := #[]
  push := fun s chunk => .ok ([], s ++ chunk)
  finish := fun s => .ok ((Deflate.stream s).toList, #[])

end FaxClient.Zlib
