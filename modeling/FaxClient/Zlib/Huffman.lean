/-!
# Huffman codes

A code is given by the length of each symbol's code word; the words are then the canonical ones:
shorter before longer, and of one length in the order of the symbols.
-/

namespace FaxClient.Zlib.Huffman

/-- A code as a tree that is walked from the root, one bit at a time. -/
inductive Tree where
  | empty
  | leaf (symbol : Nat)
  | node (zero one : Tree)

namespace Tree

def child : Tree → Bool → Tree
  | .node zero one, bit => if bit then one else zero
  | _, _ => .empty

def insert (symbol : Nat) : List Bool → Tree → Tree
  | [], _ => .leaf symbol
  | bit :: word, t =>
    if bit then .node (t.child false) (insert symbol word (t.child true))
    else .node (insert symbol word (t.child false)) (t.child true)

end Tree

def maxLength : Nat := 15

/-- The `length` lowest bits of a number, the highest first. -/
def word (length value : Nat) : List Bool :=
  (List.range length).map fun i => value.testBit (length - 1 - i)

def symbolsOf (lengths : List Nat) (length : Nat) : List Nat :=
  (lengths.zipIdx.filter (·.1 == length)).map (·.2)

/-- Adds the words of all symbols of the lengths from `length` on, of which the first has the
value `next`. -/
def addWords (lengths : List Nat) : Nat → Nat → Nat → Tree → Tree
  | 0, _, _, t => t
  | count + 1, length, next, t =>
    let symbols := symbolsOf lengths length
    let t := symbols.zipIdx.foldl (fun t (s, i) => t.insert s (word length (next + i))) t
    addWords lengths count (length + 1) (2 * (next + symbols.length)) t

/-- How much of the space of words the lengths take, in words of the greatest length. -/
def used (lengths : List Nat) : Nat :=
  lengths.foldl (fun sum l => if l = 0 then sum else sum + (1 <<< (maxLength - l))) 0

/-- The tree of a code that takes the whole space of words, or, if `sparse`, has at most one
word. -/
def ofLengths? (sparse : Bool) (lengths : List Nat) : Option Tree :=
  if used lengths = 1 <<< maxLength || (sparse && lengths.countP (· != 0) ≤ 1) then
    some (addWords lengths maxLength 1 0 .empty)
  else none

end FaxClient.Zlib.Huffman
