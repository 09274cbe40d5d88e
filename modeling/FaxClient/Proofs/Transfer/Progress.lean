import FaxClient.Transfer.Progress
import Mathlib

/-!
# The spacing of progress

What is pending is what the payload is past the last multiple of the block size.  So progress is
announced exactly when the number of whole blocks grows, and never but for payload that was just
moved.  Payload that comes in portions has no more such moments than whole blocks, and as many if
no portion is larger than a block.
-/

namespace FaxClient.Transfer.Progress

/-- The pending payload is the payload past the last multiple of the block size. -/
def Sound (p : Progress) : Prop := p.pending = p.total % blockSize

theorem sound_zero : zero.Sound := rfl

theorem Sound.advance {p : Progress} (h : p.Sound) (n : Nat) : (p.advance n).1.Sound := by
  have htotal : (p.total + n) % blockSize = (p.pending + n) % blockSize := by
    rw [h, Nat.mod_add_mod]
  unfold Progress.advance Sound
  dsimp only
  split
  · exact htotal.symm
  · next hlt => rw [htotal, Nat.mod_eq_of_lt (Nat.not_le.mp hlt)]

theorem due_advance (p : Progress) (n : Nat) :
    (p.advance n).2 = true ↔ blockSize ≤ p.pending + n := by
  by_cases hdue : blockSize ≤ p.pending + n <;> simp [Progress.advance, hdue]

/-- Progress is due exactly when the number of whole blocks grows. -/
theorem Sound.due_iff {p : Progress} (h : p.Sound) (n : Nat) :
    (p.advance n).2 = true ↔ p.total / blockSize < (p.total + n) / blockSize := by
  rw [due_advance, h]
  unfold blockSize
  omega

theorem Sound.pos_of_due {p : Progress} (h : p.Sound) {n : Nat} (hdue : (p.advance n).2 = true) :
    0 < n := by
  rw [h.due_iff] at hdue
  apply Nat.pos_of_ne_zero
  rintro rfl
  exact absurd hdue (lt_irrefl _)

/-! ## Payload in portions -/

/-- The totals at which the number of whole blocks has grown, when payload comes in portions after
a total that was there before. -/
def milestones (total : Nat) : List Nat → List Nat
  | [] => []
  | n :: portions =>
    (if total / blockSize < (total + n) / blockSize then [total + n] else []) ++
      milestones (total + n) portions

@[simp] theorem milestones_nil (total : Nat) : milestones total [] = [] := rfl

theorem milestones_cons (total n : Nat) (portions : List Nat) :
    milestones total (n :: portions) =
      (if total / blockSize < (total + n) / blockSize then [total + n] else []) ++
        milestones (total + n) portions := rfl

theorem milestones_append (total : Nat) (portions later : List Nat) :
    milestones total (portions ++ later) =
      milestones total portions ++ milestones (total + portions.sum) later := by
  induction portions generalizing total with
  | nil => simp
  | cons n portions ih =>
    let due := if total / blockSize < (total + n) / blockSize then [total + n] else []
    calc milestones total (n :: (portions ++ later))
      _ = due ++ (milestones (total + n) portions ++
          milestones (total + n + portions.sum) later) := by rw [milestones_cons, ih]
      _ = milestones total (n :: portions) ++ milestones (total + (n :: portions).sum) later := by
        rw [milestones_cons, List.sum_cons, List.append_assoc, Nat.add_assoc]

theorem length_milestones_cons (total n : Nat) (portions : List Nat) :
    (milestones total (n :: portions)).length =
      (if total / blockSize < (total + n) / blockSize then 1 else 0) +
        (milestones (total + n) portions).length := by
  rw [milestones_cons, List.length_append]
  split <;> rfl

/-- One portion gives one milestone at most, however many blocks it completes. -/
theorem length_milestones_le (total : Nat) (portions : List Nat) :
    total / blockSize + (milestones total portions).length ≤
      (total + portions.sum) / blockSize := by
  induction portions generalizing total with
  | nil => simp
  | cons n portions ih =>
    have hlater := ih (total + n)
    have hgrows : total / blockSize ≤ (total + n) / blockSize :=
      Nat.div_le_div_right (Nat.le_add_right total n)
    rw [length_milestones_cons, List.sum_cons, ← Nat.add_assoc total n]
    split <;> omega

/-- A portion no larger than a block completes one block at most. -/
theorem length_milestones_eq (total : Nat) {portions : List Nat}
    (h : ∀ n ∈ portions, n ≤ blockSize) :
    total / blockSize + (milestones total portions).length =
      (total + portions.sum) / blockSize := by
  induction portions generalizing total with
  | nil => simp
  | cons n portions ih =>
    obtain ⟨hn, hportions⟩ := List.forall_mem_cons.mp h
    have hlater := ih (total + n) hportions
    have hgrows : total / blockSize ≤ (total + n) / blockSize :=
      Nat.div_le_div_right (Nat.le_add_right total n)
    have hnext : (total + n) / blockSize ≤ total / blockSize + 1 := by
      rw [← Nat.add_div_right total (by decide : 0 < blockSize)]
      exact Nat.div_le_div_right (Nat.add_le_add_left hn total)
    rw [length_milestones_cons, List.sum_cons, ← Nat.add_assoc total n]
    split <;> omega

end FaxClient.Transfer.Progress
