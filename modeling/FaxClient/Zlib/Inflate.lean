import FaxClient.Filter
import FaxClient.Zlib.Adler32
import FaxClient.Zlib.Alphabet
import FaxClient.Zlib.Huffman

/-!
# Decompression

A zlib stream is read one bit at a time, so what has come out depends only on the octets so far
and not on how they were divided.  A reader is in the middle of a number, in the middle of a code
word, on its way to the next octet boundary, at the end of the stream, or stuck at something that
no stream holds.

A copy may reach back before the first octet: the window is full of zeros at the start.
-/

namespace FaxClient.Zlib.Inflate

open Huffman (Tree)

structure Codes where
  literals : Tree
  distances : Tree

def fixedCodes : Codes :=
  ⟨(Huffman.ofLengths? true fixedLiteralLengths).getD .empty,
    (Huffman.ofLengths? true fixedDistanceLengths).getD .empty⟩

/-- The lengths of a block's codes as they are read: by which code, how many belong to the code of
literals, how many there are in all, and those already read, the latest first. -/
structure Lengths where
  code : Tree
  literals : Nat
  total : Nat
  seen : List Nat

inductive Field where
  | header
  | block
  | storedSize
  | storedOctet (left : Nat)
  | counts
  | codeLength (literals distances : Nat) (left : List Nat) (seen : List (Nat × Nat))
  | runLength (lengths : Lengths) (value least extra : Nat)
  | lengthBits (codes : Codes) (least extra : Nat)
  | distanceBits (codes : Codes) (length least extra : Nat)
  | checksum

inductive Alphabet where
  | lengths (l : Lengths)
  | literals (c : Codes)
  | distances (c : Codes) (length : Nat)

inductive Phase where
  /-- So many bits of a number have been read, with this value. -/
  | number (bits value : Nat) (field : Field)
  /-- A code word has led here. -/
  | word (here : Tree) (alphabet : Alphabet)
  /-- The rest of the octet is skipped before a number. -/
  | aligning (field : Field)
  | ended
  | stuck

structure State where
  phase : Phase
  last : Bool
  out : Array UInt8
  check : Adler32

def start : State := ⟨.number 0 0 .header, false, #[], .empty⟩

def Field.width : Field → Nat
  | .header => 16
  | .block => 3
  | .storedSize => 32
  | .storedOctet _ => 8
  | .counts => 14
  | .codeLength .. => 3
  | .runLength _ _ _ extra | .lengthBits _ _ extra | .distanceBits _ _ _ extra => extra
  | .checksum => 32

def State.goto (s : State) (phase : Phase) : State := { s with phase := phase }

def State.read (s : State) (field : Field) : State := s.goto (.number 0 0 field)

/-- After a block comes another, or the checksum. -/
def State.nextBlock (s : State) : State :=
  if s.last then s.goto (.aligning .checksum) else s.read .block

def State.emit (s : State) (b : UInt8) : State :=
  { s with out := s.out.push b, check := s.check.add b }

/-- Copies octets from so far back, one at a time, so that a copy may overlap itself. -/
def State.copy (s : State) (distance : Nat) : Nat → State
  | 0 => s
  | n + 1 =>
    let b := if distance ≤ s.out.size then s.out.getD (s.out.size - distance) 0 else 0
    (s.emit b).copy distance n

def State.literal (s : State) (codes : Codes) : State :=
  s.goto (.word codes.literals (.literals codes))

def State.distance (s : State) (codes : Codes) (length : Nat) : State :=
  s.goto (.word codes.distances (.distances codes length))

def State.copied (s : State) (codes : Codes) (length distance : Nat) : State :=
  (s.copy distance length).literal codes

/-- Begins a block with its own codes once all their lengths are known. -/
def State.withLengths (s : State) (l : Lengths) : State :=
  if l.seen.length < l.total then s.goto (.word l.code (.lengths l))
  else if l.total < l.seen.length then s.goto .stuck
  else
    let all := l.seen.reverse
    match Huffman.ofLengths? true (all.take l.literals),
      Huffman.ofLengths? true (all.drop l.literals) with
    | some literals, some distances => s.literal ⟨literals, distances⟩
    | _, _ => s.goto .stuck

/-- The code in which the lengths of a block's codes are written. -/
def lengthCode? (seen : List (Nat × Nat)) : Option Tree :=
  Huffman.ofLengths? false ((List.range 19).map fun i => (seen.lookup i).getD 0)

def State.number (s : State) (field : Field) (value : Nat) : State :=
  match field with
  | .header =>
    let method := value % 256
    let flags := value / 256
    if (method * 256 + flags) % 31 = 0 ∧ method % 16 = 8 ∧ method / 16 ≤ 7 ∧ flags / 32 % 2 = 0 then
      s.read .block
    else s.goto .stuck
  | .block =>
    let s := { s with last := value % 2 = 1 }
    match value / 2 with
    | 0 => s.goto (.aligning .storedSize)
    | 1 => s.literal fixedCodes
    | 2 => s.read .counts
    | _ => s.goto .stuck
  | .storedSize =>
    let size := value % 65536
    if size + value / 65536 ≠ 65535 then s.goto .stuck
    else if size = 0 then s.nextBlock
    else s.read (.storedOctet (size - 1))
  | .storedOctet left =>
    let s := s.emit value.toUInt8
    if left = 0 then s.nextBlock else s.read (.storedOctet (left - 1))
  | .counts =>
    let literals := value % 32 + 257
    let distances := value / 32 % 32 + 1
    if literals ≤ 286 ∧ distances ≤ 30 then
      s.read (.codeLength literals distances (lengthOrder.take (value / 1024 + 4)) [])
    else s.goto .stuck
  | .codeLength literals distances left seen =>
    match left with
    | [] => s.goto .stuck
    | i :: left =>
      let seen := (i, value) :: seen
      if left.isEmpty then
        match lengthCode? seen with
        | some code => s.withLengths ⟨code, literals, literals + distances, []⟩
        | none => s.goto .stuck
      else s.read (.codeLength literals distances left seen)
  | .runLength l length least _ =>
    s.withLengths { l with seen := List.replicate (least + value) length ++ l.seen }
  | .lengthBits codes least _ => s.distance codes (least + value)
  | .distanceBits codes length least _ => s.copied codes length (least + value)
  | .checksum =>
    let read := value % 256 * 16777216 + value / 256 % 256 * 65536 + value / 65536 % 256 * 256 +
      value / 16777216
    if read = s.check.value then s.goto .ended else s.goto .stuck

/-- Reads a number next, which may have no bits at all. -/
def State.readBits (s : State) (field : Field) : State :=
  if field.width = 0 then s.number field 0 else s.read field

def State.symbol (s : State) (alphabet : Alphabet) (symbol : Nat) : State :=
  match alphabet with
  | .lengths l =>
    if symbol < 16 then s.withLengths { l with seen := symbol :: l.seen }
    else if symbol = 16 then
      match l.seen with
      | [] => s.goto .stuck
      | length :: _ => s.read (.runLength l length 3 2)
    else if symbol = 17 then s.read (.runLength l 0 3 3)
    else s.read (.runLength l 0 11 7)
  | .literals codes =>
    if symbol < endOfBlock then (s.emit symbol.toUInt8).literal codes
    else if symbol = endOfBlock then s.nextBlock
    else
      match lengthRanges[symbol - 257]? with
      | some (least, extra) => s.readBits (.lengthBits codes least extra)
      | none => s.goto .stuck
  | .distances codes length =>
    match distanceRanges[symbol]? with
    | some (least, extra) => s.readBits (.distanceBits codes length least extra)
    | none => s.goto .stuck

/-- Reads one bit, the `position`th of its octet. -/
def State.bit (s : State) (bit : Bool) : State :=
  match s.phase with
  | .number bits value field =>
    let value := if bit then value + (1 <<< bits) else value
    if bits + 1 < field.width then s.goto (.number (bits + 1) value field)
    else s.number field value
  | .word here alphabet =>
    match here.child bit with
    | .empty => s.goto .stuck
    | .leaf symbol => s.symbol alphabet symbol
    | t@(.node ..) => s.goto (.word t alphabet)
  | .aligning _ | .ended | .stuck => s

/-- Reads the bits of an octet from the lowest on, of which `count` are left. -/
def State.bits (s : State) (b : UInt8) : Nat → State
  | 0 => s
  | count + 1 => (s.bit (b &&& 1 == 1)).bits (b >>> 1) count

/-- Reads an octet; at its end an octet boundary is reached. -/
def State.octet (s : State) (b : UInt8) : State :=
  let s := s.bits b 8
  match s.phase with
  | .aligning field => s.read field
  | _ => s

/-- Reads octets up to the end of the stream: any octet after it is refused. -/
def State.octets (s : State) : Octets → Except Fault State
  | [] => .ok s
  | b :: rest =>
    match s.phase with
    | .ended => .error .wrotePart
    | _ =>
      let s := s.octet b
      match s.phase with
      | .stuck => .error .corrupt
      | _ => s.octets rest

end FaxClient.Zlib.Inflate

namespace FaxClient.Zlib

/-- Decompression as a filter.  A stream that ends early is no error. -/
def inflate : Filter where
  State := Inflate.State
  start := Inflate.start
  push := fun s chunk => do
    let before := s.out.size
    let s ← s.octets chunk
    return ((s.out.extract before s.out.size).toList, s)
  finish := fun s => .ok ([], s)

end FaxClient.Zlib
