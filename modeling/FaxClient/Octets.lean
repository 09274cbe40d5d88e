/-!
# Octets

What travels on a connection is a list of octets.  This module holds the two octets that end
lines, the octets of a text, and the division of octets into pieces of bounded length.
-/

namespace FaxClient

abbrev Octets := List UInt8

namespace Octets

def cr : UInt8 := 13

def lf : UInt8 := 10

def ofText (text : String) : Octets :=
  text.toList.flatMap String.utf8EncodeChar

/-- Consecutive pieces of `size + 1` octets; only the last may be shorter, and none is empty. -/
def pieces (size : Nat) (octets : Octets) : List Octets :=
  match octets with
  | [] => []
  | b :: rest => (b :: rest.take size) :: pieces size (rest.drop size)
termination_by octets.length
decreasing_by exact Nat.lt_succ_of_le (List.drop_sublist size rest).length_le

@[simp] theorem pieces_nil (size : Nat) : pieces size [] = [] := by
  simp [pieces]

theorem pieces_cons (size : Nat) (b : UInt8) (rest : Octets) :
    pieces size (b :: rest) = (b :: rest.take size) :: pieces size (rest.drop size) := by
  rw [pieces]

theorem flatten_pieces (size : Nat) (octets : Octets) : (pieces size octets).flatten = octets := by
  induction octets using pieces.induct size with
  | case1 => simp
  | case2 b rest ih => simp [pieces_cons, ih]

theorem length_le_of_mem_pieces {size : Nat} {octets piece : Octets}
    (h : piece ∈ octets.pieces size) : piece.length ≤ size + 1 := by
  induction octets using pieces.induct size with
  | case1 => simp at h
  | case2 b rest ih =>
    rw [pieces_cons] at h
    rcases List.mem_cons.mp h with rfl | h
    · exact Nat.succ_le_succ (List.length_take_le size rest)
    · exact ih h

end Octets

end FaxClient
