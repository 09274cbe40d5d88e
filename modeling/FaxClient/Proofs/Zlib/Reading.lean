import FaxClient.Proofs.Zlib.Bits
import FaxClient.Proofs.Zlib.Inflation

/-!
# Reading bits

A reader that is in the middle of a number or of a code word takes the next bit.  Octets are read
bit by bit, and a reader that waits for the end of an octet takes no notice of the bits before it.
-/

namespace FaxClient.Zlib

/-- The symbol that a word leads to, if it leads to just that symbol. -/
def Huffman.Tree.walk : Huffman.Tree → List Bool → Option Nat
  | _, [] => none
  | t, b :: bits =>
    match t.child b with
    | .empty => none
    | .leaf symbol => if bits.isEmpty then some symbol else none
    | .node zero one => walk (.node zero one) bits

namespace Inflate

open Deflate (numberBits)

namespace State

/-- Whether the next bit belongs to a number or to a code word. -/
def Open (s : State) : Prop :=
  match s.phase with
  | .number .. | .word .. => True
  | .aligning _ | .ended | .stuck => False

/-- The bits lead from one state to another, and each of them is taken notice of. -/
inductive Reads : State → List Bool → State → Prop
  | nil (s : State) : Reads s [] s
  | cons {s t : State} {b : Bool} {bits : List Bool} (hopen : s.Open) (h : Reads (s.bit b) bits t) :
      Reads s (b :: bits) t

namespace Reads

variable {s t u : State} {bits more : List Bool}

theorem append (h : Reads s bits t) (h' : Reads t more u) : Reads s (bits ++ more) u := by
  induction h with
  | nil => exact h'
  | cons hopen h ih => exact .cons hopen (ih h')

theorem foldl_eq (h : Reads s bits t) : bits.foldl bit s = t := by
  induction h with
  | nil => rfl
  | cons hopen h ih => exact ih

theorem open_of_ne_nil (h : Reads s bits t) (hbits : bits ≠ []) : s.Open := by
  cases h with
  | nil => exact absurd rfl hbits
  | cons hopen h => exact hopen

theorem split (h : Reads s (bits ++ more) u) : ∃ t, Reads s bits t ∧ Reads t more u := by
  induction bits generalizing s with
  | nil => exact ⟨s, .nil s, h⟩
  | cons b bits ih =>
    cases h with
    | cons hopen h =>
      obtain ⟨t, hbits, hmore⟩ := ih h
      exact ⟨t, .cons hopen hbits, hmore⟩

end Reads

/-! ## Numbers and words -/

theorem copy_goto (s : State) (phase : Phase) (distance n : Nat) :
    (s.goto phase).copy distance n = (s.copy distance n).goto phase := by
  induction n generalizing s with
  | zero => rfl
  | succ n ih => exact ih (s.emit _)

/-- What a number leads to does not depend on where the reader was. -/
theorem number_goto (s : State) (phase : Phase) (field : Field) (value : Nat) :
    (s.goto phase).number field value = s.number field value := by
  cases field with
  | codeLength literals distances left seen => cases left <;> rfl
  | distanceBits codes length least extra =>
    have hcopy := s.copy_goto phase (least + value) length
    simp only [number, copied, hcopy]
    rfl
  | _ => rfl

theorem readBits_goto (s : State) (phase : Phase) (field : Field) :
    (s.goto phase).readBits field = s.readBits field := by
  unfold readBits
  rw [number_goto]
  rfl

theorem symbol_goto (s : State) (phase : Phase) (alphabet : Alphabet) (symbol : Nat) :
    (s.goto phase).symbol alphabet symbol = s.symbol alphabet symbol := by
  cases alphabet with
  | lengths l => rfl
  | literals codes =>
    simp only [State.symbol, readBits_goto]
    split_ifs with hliteral hend
    · rfl
    · rfl
    · cases lengthRanges[symbol - 257]? <;> rfl
  | distances codes length =>
    simp only [State.symbol, readBits_goto]
    cases distanceRanges[symbol]? <;> rfl

theorem bit_number (s : State) (k v : Nat) (field : Field) (b : Bool) :
    (s.goto (.number k v field)).bit b =
      if k + 1 < field.width then s.goto (.number (k + 1) (if b then v + 2 ^ k else v) field)
      else s.number field (if b then v + 2 ^ k else v) := by
  rw [← Nat.one_shiftLeft, ← number_goto s (.number k v field)]
  rfl

theorem reads_number (s : State) (field : Field) (k v : Nat) (bits : List Bool)
    (hbits : bits ≠ []) (hwidth : k + bits.length = field.width) :
    Reads (s.goto (.number k v field)) bits (s.number field (v + 2 ^ k * ofBits bits)) := by
  induction bits generalizing k v with
  | nil => exact absurd rfl hbits
  | cons b bits ih =>
    have hvalue : v + 2 ^ k * ofBits (b :: bits) =
        (if b then v + 2 ^ k else v) + 2 ^ (k + 1) * ofBits bits := by
      rw [ofBits, pow_succ]
      cases b <;> simp <;> ring
    rw [List.length_cons] at hwidth
    refine .cons trivial ?_
    rw [bit_number, hvalue]
    generalize (if b then v + 2 ^ k else v) = v'
    cases bits with
    | nil =>
      have hlast : ¬ k + 1 < field.width := by
        rw [← hwidth]
        simp
      rw [if_neg hlast, ofBits, Nat.mul_zero, Nat.add_zero]
      exact .nil _
    | cons b' bits =>
      have hmore : k + 1 < field.width := by
        rw [← hwidth, List.length_cons]
        omega
      rw [if_pos hmore]
      exact ih (k + 1) v' (by simp) (by omega)

/-- A number is read as its bits, also when it has none. -/
theorem reads_readBits (s : State) (field : Field) (value : Nat) (h : value < 2 ^ field.width) :
    Reads (s.readBits field) (numberBits field.width value) (s.number field value) := by
  unfold readBits
  split
  · next hwidth =>
    have hzero : value = 0 := by
      rw [hwidth] at h
      simpa using h
    rw [hwidth, hzero]
    exact .nil _
  · next hwidth =>
    have hbits : numberBits field.width value ≠ [] := by
      intro hnil
      have hlength := congrArg List.length hnil
      rw [length_numberBits] at hlength
      exact hwidth hlength
    have hreads := s.reads_number field 0 0 _ hbits (by simp)
    rwa [ofBits_numberBits _ _ h, pow_zero, Nat.one_mul, Nat.zero_add] at hreads

theorem reads_word (s : State) (alphabet : Alphabet) {t : Huffman.Tree} {word : List Bool}
    {symbol : Nat} (h : t.walk word = some symbol) :
    Reads (s.goto (.word t alphabet)) word (s.symbol alphabet symbol) := by
  induction word generalizing t with
  | nil => simp [Huffman.Tree.walk] at h
  | cons b word ih =>
    refine .cons trivial ?_
    rw [Huffman.Tree.walk] at h
    cases hchild : t.child b with
    | empty => simp [hchild] at h
    | leaf found =>
      have hbit : (s.goto (.word t alphabet)).bit b = s.symbol alphabet found := by
        rw [← symbol_goto s (.word t alphabet)]
        simp [bit, goto, hchild]
      simp only [hchild] at h
      split at h
      · next hlast =>
        cases h
        rw [List.isEmpty_iff.mp hlast, hbit]
        exact .nil _
      · cases h
    | node zero one =>
      have hbit : (s.goto (.word t alphabet)).bit b = s.goto (.word (.node zero one) alphabet) := by
        simp [bit, goto, hchild]
      simp only [hchild] at h
      rw [hbit]
      exact ih h

/-! ## Octets -/

theorem bits_eq_foldl (s : State) (b : UInt8) (count : Nat) :
    s.bits b count = (numberBits count b.toNat).foldl bit s := by
  induction count generalizing s b with
  | zero => rfl
  | succ count ih =>
    have hlowest : (b &&& 1 == 1) = b.toNat.testBit 0 := by
      rw [Bool.eq_iff_iff, beq_iff_eq, ← UInt8.toNat_inj, UInt8.toNat_and, Nat.testBit_zero]
      simp [Nat.and_one_is_mod]
    have hrest : (b >>> 1).toNat = b.toNat / 2 := by
      simp [UInt8.toNat_shiftRight, Nat.shiftRight_eq_div_pow]
    rw [bits, ih, numberBits_succ, List.foldl_cons, hlowest, hrest]

/-- At the end of an octet the wait for it is over. -/
def settled (s : State) : State :=
  match s.phase with
  | .aligning field => s.read field
  | _ => s

theorem octet_eq_settled (s : State) (b : UInt8) :
    s.octet b = ((octetBits b).foldl bit s).settled := by
  rw [octet, bits_eq_foldl]
  rfl

theorem settled_of_open {s : State} (h : s.Open) : s.settled = s := by
  unfold settled
  split
  · next heq => simp [Open, heq] at h
  · rfl

theorem phase_settled_ne_stuck {s : State} (h : s.phase ≠ .stuck) : s.settled.phase ≠ .stuck := by
  unfold settled
  split
  · simp [read, goto]
  · exact h

theorem foldl_bit_of_aligning {s : State} {field : Field} (h : s.phase = .aligning field)
    (bits : List Bool) : bits.foldl bit s = s := by
  induction bits with
  | nil => rfl
  | cons b bits ih =>
    have hbit : s.bit b = s := by simp [bit, h]
    rw [List.foldl_cons, hbit, ih]

theorem octets_cons_of_open {s : State} {b : UInt8} (hopen : s.Open)
    (hstuck : (s.octet b).phase ≠ .stuck) (rest : Octets) :
    s.octets (b :: rest) = (s.octet b).octets rest := by
  rw [octets]
  split
  · next heq => simp [Open, heq] at hopen
  · dsimp only
    split
    · next heq => exact absurd heq hstuck
    · rfl

/-- Octets that hold the bits from one state to another, and perhaps others that are taken no
notice of, lead to the end of the octet in which the last of the bits is. -/
theorem octets_of_reads {s t : State} {bits pad : List Bool} {x : Octets} (h : Reads s bits t)
    (hbits : bits ≠ []) (hx : x.flatMap octetBits = bits ++ pad) (hpad : pad.length < 8)
    (hskips : pad.foldl bit t = t) (hstuck : t.phase ≠ .stuck) :
    s.octets x = .ok t.settled := by
  induction x generalizing s bits with
  | nil =>
    have hnil : bits = [] := (List.append_eq_nil_iff.mp hx.symm).1
    exact absurd hnil hbits
  | cons b rest ih =>
    have hopen : s.Open := h.open_of_ne_nil hbits
    rw [List.flatMap_cons] at hx
    have hlength := congrArg List.length hx
    simp only [List.length_append, length_octetBits, length_flatMap_octetBits] at hlength
    -- The last of the bits is in this octet, or this octet is full of them and another follows.
    by_cases hlast : bits.length ≤ 8
    · have hrest : rest = [] := List.length_eq_zero_iff.mp (by omega)
      rw [hrest, List.flatMap_nil, List.append_nil] at hx
      have hoctet : s.octet b = t.settled := by
        calc s.octet b
          _ = (pad.foldl bit (bits.foldl bit s)).settled := by
            rw [octet_eq_settled, hx, List.foldl_append]
          _ = t.settled := by rw [h.foldl_eq, hskips]
      rw [octets_cons_of_open hopen (hoctet ▸ phase_settled_ne_stuck hstuck), hoctet, hrest]
      rfl
    · rcases List.append_eq_append_iff.mp hx with ⟨bits', hsplit, hrest⟩ | ⟨rest', hmore, -⟩
      · have hbits' : bits' ≠ [] := by
          rintro rfl
          rw [List.append_nil] at hsplit
          exact hlast (by rw [hsplit, length_octetBits])
        rw [hsplit] at h
        obtain ⟨u, hfirst, hmore⟩ := h.split
        have hu : u.Open := hmore.open_of_ne_nil hbits'
        have hoctet : s.octet b = u := by
          rw [octet_eq_settled, hfirst.foldl_eq, settled_of_open hu]
        have hnot : (s.octet b).phase ≠ .stuck := by
          intro hphase
          rw [hoctet] at hphase
          simp [Open, hphase] at hu
        rw [octets_cons_of_open hopen hnot, hoctet]
        exact ih hmore hbits' hrest
      · have hle := congrArg List.length hmore
        rw [length_octetBits, List.length_append] at hle
        omega

end State

end Inflate

end FaxClient.Zlib
