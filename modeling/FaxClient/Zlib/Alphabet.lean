/-!
# Lengths and distances

A copy is written as a symbol for a range of lengths, bits that choose in it, a symbol for a
range of distances, and bits that choose in that.  The tables give for each symbol the least
value of its range and the number of bits.
-/

namespace FaxClient.Zlib

def endOfBlock : Nat := 256

/-- Symbols 257 to 285: least length and number of extra bits. -/
def lengthRanges : List (Nat × Nat) :=
  [(3, 0), (4, 0), (5, 0), (6, 0), (7, 0), (8, 0), (9, 0), (10, 0), (11, 1), (13, 1), (15, 1),
    (17, 1), (19, 2), (23, 2), (27, 2), (31, 2), (35, 3), (43, 3), (51, 3), (59, 3), (67, 4),
    (83, 4), (99, 4), (115, 4), (131, 5), (163, 5), (195, 5), (227, 5), (258, 0)]

/-- Symbols 0 to 29: least distance and number of extra bits. -/
def distanceRanges : List (Nat × Nat) :=
  [(1, 0), (2, 0), (3, 0), (4, 0), (5, 1), (7, 1), (9, 2), (13, 2), (17, 3), (25, 3), (33, 4),
    (49, 4), (65, 5), (97, 5), (129, 6), (193, 6), (257, 7), (385, 7), (513, 8), (769, 8),
    (1025, 9), (1537, 9), (2049, 10), (3073, 10), (4097, 11), (6145, 11), (8193, 12), (12289, 12),
    (16385, 13), (24577, 13)]

/-- The last range that begins at or below a value, with its place in the table. -/
def rangeOf (ranges : List (Nat × Nat)) (value : Nat) : Nat × Nat × Nat :=
  match (ranges.zipIdx.filter fun r => r.1.1 ≤ value).getLast? with
  | some ((least, extra), i) => (i, least, extra)
  | none => (0, 0, 0)

def fixedLiteralLengths : List Nat :=
  List.replicate 144 8 ++ List.replicate 112 9 ++ List.replicate 24 7 ++ List.replicate 8 8

def fixedDistanceLengths : List Nat := List.replicate 32 5

/-- The order in which a block gives the lengths of the code for its lengths. -/
def lengthOrder : List Nat :=
  [16, 17, 18, 0, 8, 7, 9, 6, 10, 5, 11, 4, 12, 3, 13, 2, 14, 1, 15]

end FaxClient.Zlib
