import FaxClient.Zlib.Deflate
import Mathlib

/-!
# Bits and octets

A number stands for its bits, the lowest first, and an octet for eight of them.  A writer packs the
bits it is given into octets without changing their order, and fills up the last octet.
-/

namespace FaxClient.Zlib

open Deflate (numberBits Writer)

/-! ## Numbers -/

@[simp] theorem length_numberBits (width value : Nat) :
    (numberBits width value).length = width := by
  simp [numberBits]

theorem numberBits_succ (width value : Nat) :
    numberBits (width + 1) value = value.testBit 0 :: numberBits width (value / 2) := by
  simp [numberBits, List.range_succ_eq_map, Nat.testBit_succ]

theorem numberBits_succ_last (width value : Nat) :
    numberBits (width + 1) value = numberBits width value ++ [value.testBit width] := by
  simp [numberBits, List.range_succ]

theorem numberBits_isPrefix {m n : Nat} (h : m ≤ n) (value : Nat) :
    numberBits m value <+: numberBits n value := by
  induction h with
  | refl => exact List.prefix_rfl
  | step h ih =>
    rw [numberBits_succ_last]
    exact List.prefix_append_of_prefix ih

/-- A bit put before the highest leaves the lower ones as they are. -/
theorem numberBits_add_two_pow (width value : Nat) (b : Bool) (h : value < 2 ^ width) :
    numberBits (width + 1) (if b then value + 2 ^ width else value) =
      numberBits width value ++ [b] := by
  rw [numberBits_succ_last]
  cases b with
  | false => simp [Nat.testBit_lt_two_pow h]
  | true =>
    have hlow : numberBits width (value + 2 ^ width) = numberBits width value := by
      refine List.map_congr_left fun i hi => ?_
      rw [Nat.add_comm, Nat.testBit_two_pow_add_gt (List.mem_range.mp hi)]
    have hhigh : (value + 2 ^ width).testBit width = true := by
      rw [Nat.add_comm, Nat.testBit_two_pow_add_eq, Nat.testBit_lt_two_pow h]
      rfl
    simp [hlow, hhigh]

/-- The number that bits stand for, the lowest first. -/
def ofBits : List Bool → Nat
  | [] => 0
  | b :: bits => b.toNat + 2 * ofBits bits

theorem ofBits_numberBits (width value : Nat) (h : value < 2 ^ width) :
    ofBits (numberBits width value) = value := by
  induction width generalizing value with
  | zero =>
    have hzero : value = 0 := by simpa using h
    simp [hzero, numberBits, ofBits]
  | succ width ih =>
    have hhalf : value / 2 < 2 ^ width := by
      rw [pow_succ] at h
      omega
    rw [numberBits_succ, ofBits, ih _ hhalf, Nat.testBit_zero]
    have hmod : (decide (value % 2 = 1)).toNat = value % 2 := by
      rcases Nat.mod_two_eq_zero_or_one value with h | h <;> simp [h]
    omega

theorem ofBits_append (bits more : List Bool) :
    ofBits (bits ++ more) = ofBits bits + 2 ^ bits.length * ofBits more := by
  induction bits with
  | nil => simp [ofBits]
  | cons b bits ih =>
    calc ofBits (b :: (bits ++ more))
      _ = b.toNat + 2 * (ofBits bits + 2 ^ bits.length * ofBits more) := by rw [ofBits, ih]
      _ = b.toNat + 2 * ofBits bits + 2 ^ (bits.length + 1) * ofBits more := by ring

/-! ## Octets -/

def octetBits (b : UInt8) : List Bool := numberBits 8 b.toNat

@[simp] theorem length_octetBits (b : UInt8) : (octetBits b).length = 8 := length_numberBits 8 _

theorem octetBits_toUInt8 (value : Nat) (h : value < 256) :
    octetBits value.toUInt8 = numberBits 8 value := by
  rw [octetBits, Nat.toUInt8, UInt8.toNat_ofNat_of_lt' h]

theorem ofBits_octetBits (b : UInt8) : ofBits (octetBits b) = b.toNat :=
  ofBits_numberBits 8 b.toNat b.toNat_lt

theorem length_flatMap_octetBits (octets : Octets) :
    (octets.flatMap octetBits).length = 8 * octets.length := by
  induction octets with
  | nil => rfl
  | cons b rest ih =>
    rw [List.flatMap_cons, List.length_append, length_octetBits, ih, List.length_cons]
    omega

/-! ## Writers -/

/-- What was written so far: the octets that are complete, and the bits of the next. -/
structure Writer.Holds (w : Writer) (bits : List Bool) : Prop where
  count_lt : w.count < 8
  bits_lt : w.bits < 2 ^ w.count
  bits_eq : w.out.toList.flatMap octetBits ++ numberBits w.count w.bits = bits

namespace Writer.Holds

variable {w : Writer} {bits : List Bool}

theorem bit (h : Writer.Holds w bits) (b : Bool) : Writer.Holds (w.bit b) (bits ++ [b]) := by
  have hcount := h.count_lt
  have hnext := numberBits_add_two_pow w.count w.bits b h.bits_lt
  have hlt : (if b then w.bits + 2 ^ w.count else w.bits) < 2 ^ (w.count + 1) := by
    have hbits := h.bits_lt
    rw [pow_succ]
    split <;> omega
  unfold Deflate.Writer.bit
  simp only [Nat.one_shiftLeft]
  generalize (if b then w.bits + 2 ^ w.count else w.bits) = next at hnext hlt ⊢
  split
  · next hfull =>
    rw [hfull] at hnext hlt
    refine ⟨by simp, by simp, ?_⟩
    calc (w.out.push (UInt8.ofNat next)).toList.flatMap octetBits ++ numberBits 0 0
      _ = w.out.toList.flatMap octetBits ++ numberBits 8 next := by
        rw [Array.toList_push, List.flatMap_append, List.flatMap_singleton,
          octetBits_toUInt8 next hlt]
        simp [numberBits]
      _ = w.out.toList.flatMap octetBits ++ numberBits w.count w.bits ++ [b] := by
        rw [hfull, hnext, List.append_assoc]
      _ = bits ++ [b] := by rw [h.bits_eq]
  · next hmore =>
    refine ⟨?_, hlt, ?_⟩
    · show w.count + 1 < 8
      omega
    · rw [← h.bits_eq, List.append_assoc, ← hnext]

theorem write (h : Writer.Holds w bits) (more : List Bool) :
    Writer.Holds (w.write more) (bits ++ more) := by
  induction more generalizing w bits with
  | nil => simpa [Deflate.Writer.write] using h
  | cons b more ih =>
    have hall := ih (h.bit b)
    rwa [List.append_assoc, List.singleton_append] at hall

/-- The octets are the bits that were written, and less than an octet of others. -/
theorem octets (h : Writer.Holds w bits) :
    ∃ pad, w.octets.toList.flatMap octetBits = bits ++ pad ∧ pad.length < 8 := by
  unfold Deflate.Writer.octets
  split
  · next hcount =>
    refine ⟨[], ?_, by simp⟩
    rw [← h.bits_eq, hcount]
    simp [numberBits]
  · next hcount =>
    have hlt : w.bits < 256 :=
      h.bits_lt.trans_le (Nat.pow_le_pow_right (by omega) h.count_lt.le)
    obtain ⟨pad, hpad⟩ := numberBits_isPrefix h.count_lt.le w.bits
    refine ⟨pad, ?_, ?_⟩
    · calc (w.out.push w.bits.toUInt8).toList.flatMap octetBits
        _ = w.out.toList.flatMap octetBits ++ numberBits 8 w.bits := by
          rw [Array.toList_push, List.flatMap_append, List.flatMap_singleton,
            octetBits_toUInt8 w.bits hlt]
        _ = w.out.toList.flatMap octetBits ++ numberBits w.count w.bits ++ pad := by
          rw [← hpad, List.append_assoc]
        _ = bits ++ pad := by rw [h.bits_eq]
    · have hlength := congrArg List.length hpad
      simp only [List.length_append, length_numberBits] at hlength
      omega

end Writer.Holds

end FaxClient.Zlib
