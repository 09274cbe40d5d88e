import FaxClient.Zlib.Deflate
import Mathlib

/-!
# What tokens stand for

A copy is only taken where the octets agree, so putting out the tokens one after the other gives
the octets that they were made from, whatever places are offered for copying.
-/

namespace FaxClient.Zlib.Deflate

/-- The octets so far and those of a copy, put out one at a time. -/
def copied (out : Array UInt8) (distance : Nat) : Nat → Array UInt8
  | 0 => out
  | n + 1 =>
    copied (out.push (if distance ≤ out.size then out.getD (out.size - distance) 0 else 0))
      distance n

/-- The octets so far and those of a token. -/
def spelled (out : Array UInt8) : Token → Array UInt8
  | .literal b => out.push b
  | .copy length distance => copied out distance length

/-- What can be written of a token. -/
def Token.Sound : Token → Prop
  | .literal _ => True
  | .copy length distance =>
    3 ≤ length ∧ length ≤ maxMatch ∧ 1 ≤ distance ∧ distance ≤ maxDistance

variable {x : Array UInt8}

theorem agreement_le (i j limit : Nat) : agreement x i j limit ≤ limit := by
  induction limit generalizing i j with
  | zero => exact Nat.le_refl 0
  | succ limit ih =>
    unfold agreement
    split
    · exact Nat.succ_le_succ (ih _ _)
    · exact Nat.zero_le _

theorem agree_of_lt_agreement {i j limit k : Nat} (h : k < agreement x i j limit) :
    i + k < x.size ∧ x.getD (i + k) 0 = x.getD (j + k) 0 := by
  induction limit generalizing i j k with
  | zero => simp [agreement] at h
  | succ limit ih =>
    unfold agreement at h
    split at h
    · next hagree =>
      cases k with
      | zero => exact hagree
      | succ k =>
        have hrest := ih (Nat.lt_of_succ_lt_succ h)
        rwa [Nat.add_right_comm i 1 k, Nat.add_right_comm j 1 k] at hrest
    · exact absurd h (Nat.not_lt_zero k)

theorem push_extract {i : Nat} (h : i < x.size) :
    (x.extract 0 i).push (x.getD i 0) = x.extract 0 (i + 1) := by
  have hlast : x.getD i 0 = x[i] := by
    rw [Array.getD_eq_getD_getElem?, Array.getElem?_eq_getElem h, Option.getD_some]
  calc (x.extract 0 i).push (x.getD i 0)
    _ = (x.extract 0 i).push x[i] := by rw [hlast]
    _ = x.extract 0 (i + 1) := by rw [Array.push_extract_getElem h, Nat.zero_min]

/-- A copy from where the octets agree puts out what comes next. -/
theorem copied_extract {i j n : Nat} (hji : j < i) (hi : i ≤ x.size)
    (hagree : ∀ k < n, i + k < x.size ∧ x.getD (i + k) 0 = x.getD (j + k) 0) :
    copied (x.extract 0 i) (i - j) n = x.extract 0 (i + n) := by
  induction n generalizing i j with
  | zero => rfl
  | succ n ih =>
    obtain ⟨hsize, heq⟩ := hagree 0 (Nat.succ_pos n)
    simp only [Nat.add_zero] at hsize heq
    have hout : (x.extract 0 i).size = i := by simp [hi]
    have hback : (x.extract 0 i).getD (i - (i - j)) 0 = x.getD i 0 := by
      calc (x.extract 0 i).getD (i - (i - j)) 0
        _ = (x.extract 0 i).getD j 0 := by rw [Nat.sub_sub_self hji.le]
        _ = x.getD j 0 := by
          rw [Array.getD_eq_getD_getElem?, Array.getD_eq_getD_getElem?, Array.getElem?_extract,
            if_pos (by omega), Nat.zero_add]
        _ = x.getD i 0 := heq.symm
    have hrest (k : Nat) (hk : k < n) :
        i + 1 + k < x.size ∧ x.getD (i + 1 + k) 0 = x.getD (j + 1 + k) 0 := by
      rw [Nat.add_right_comm i 1 k, Nat.add_right_comm j 1 k]
      exact hagree (k + 1) (Nat.succ_lt_succ hk)
    have hdistance : i - j = i + 1 - (j + 1) := by omega
    calc copied (x.extract 0 i) (i - j) (n + 1)
      _ = copied (x.extract 0 (i + 1)) (i + 1 - (j + 1)) n := by
        rw [copied, hout, if_pos (Nat.sub_le i j), hback, push_extract hsize, hdistance]
      _ = x.extract 0 (i + 1 + n) := ih (Nat.succ_lt_succ hji) hsize hrest
      _ = x.extract 0 (i + (n + 1)) := by rw [Nat.add_assoc, Nat.add_comm 1 n]

/-- A copy on offer begins before the place it is for, is worth it, and agrees with what is
there. -/
theorem copyAt?_eq_some {seen : Array Nat} {i length distance : Nat}
    (h : copyAt? x seen i = some (length, distance)) :
    ∃ j < i, distance = i - j ∧ (Token.copy length distance).Sound ∧
      ∀ k < length, i + k < x.size ∧ x.getD (i + k) 0 = x.getD (j + k) 0 := by
  delta copyAt? at h
  generalize seen.getD (slot x i) 0 = place at h
  cases place with
  | zero => cases h
  | succ j =>
    have hmatch : agreement x i j maxMatch ≤ maxMatch := agreement_le i j maxMatch
    have hagree (k : Nat) (hk : k < agreement x i j maxMatch) := agree_of_lt_agreement hk
    dsimp only at h
    generalize agreement x i j maxMatch = n at h hmatch hagree
    split_ifs at h with hnear hlong
    cases h
    obtain ⟨hlt, hdistance⟩ := hnear
    exact ⟨j, hlt, rfl, ⟨hlong, hmatch, Nat.sub_pos_of_lt hlt, hdistance⟩, hagree⟩

/-- If the tokens so far give all octets up to those that are covered, all tokens give all
octets, whatever was seen. -/
theorem spelled_addTokens {left covered : Nat} {seen : Array Nat} {acc : Array Token}
    (hleft : left ≤ x.size) (hcovered : covered ≤ left)
    (hacc : acc.foldl spelled #[] = x.extract 0 (x.size - left + covered)) :
    (addTokens x left covered seen acc).foldl spelled #[] = x := by
  induction left generalizing covered seen acc with
  | zero =>
    have hzero : covered = 0 := Nat.le_zero.mp hcovered
    simpa [addTokens, hzero] using hacc
  | succ left ih =>
    have hnext : x.size - (left + 1) + 1 = x.size - left := by omega
    have hlt : x.size - (left + 1) < x.size := by omega
    have hleft' : left ≤ x.size := by omega
    cases covered with
    | succ more =>
      -- An octet that a copy covers gives no token of its own.
      rw [addTokens]
      refine ih hleft' (Nat.le_of_succ_le_succ hcovered) ?_
      rw [hacc, ← hnext, Nat.add_right_comm, Nat.add_assoc]
    | zero =>
      rw [addTokens]
      cases hcopy : copyAt? x seen (x.size - (left + 1)) with
      | none =>
        refine ih hleft' (Nat.zero_le left) ?_
        calc (acc.push (.literal (x.getD (x.size - (left + 1)) 0))).foldl spelled #[]
          _ = (x.extract 0 (x.size - (left + 1))).push (x.getD (x.size - (left + 1)) 0) := by
            rw [Array.foldl_push, hacc, Nat.add_zero, spelled]
          _ = x.extract 0 (x.size - left + 0) := by rw [push_extract hlt, hnext, Nat.add_zero]
      | some offer =>
        obtain ⟨length, distance⟩ := offer
        obtain ⟨j, hj, rfl, hsound, hagree⟩ := copyAt?_eq_some hcopy
        have hlength : 3 ≤ length := hsound.1
        have hfits : x.size - (left + 1) + (length - 1) < x.size :=
          (hagree (length - 1) (by omega)).1
        refine ih hleft' (by omega) ?_
        rw [Array.foldl_push, hacc, Nat.add_zero, spelled, copied_extract hj hlt.le hagree]
        congr 1
        omega

/-- The tokens of octets stand for them. -/
theorem spelled_tokens (x : Array UInt8) : (tokens x).foldl spelled #[] = x := by
  rw [tokens]
  exact spelled_addTokens (Nat.le_refl _) (Nat.zero_le _) (by simp)

theorem sound_addTokens {left covered : Nat} {seen : Array Nat} {acc : Array Token}
    (hacc : ∀ t ∈ acc, t.Sound) : ∀ t ∈ addTokens x left covered seen acc, t.Sound := by
  induction left generalizing covered seen acc with
  | zero => simpa [addTokens] using hacc
  | succ left ih =>
    cases covered with
    | succ more =>
      rw [addTokens]
      exact ih hacc
    | zero =>
      rw [addTokens]
      cases hcopy : copyAt? x seen (x.size - (left + 1)) with
      | none =>
        refine ih fun t ht => ?_
        rcases Array.mem_push.mp ht with ht | rfl
        · exact hacc t ht
        · trivial
      | some offer =>
        obtain ⟨length, distance⟩ := offer
        obtain ⟨j, -, -, hsound, -⟩ := copyAt?_eq_some hcopy
        refine ih fun t ht => ?_
        rcases Array.mem_push.mp ht with ht | rfl
        · exact hacc t ht
        · exact hsound

theorem sound_tokens (x : Array UInt8) : ∀ t ∈ tokens x, t.Sound := by
  rw [tokens]
  exact sound_addTokens (by simp)

end FaxClient.Zlib.Deflate
