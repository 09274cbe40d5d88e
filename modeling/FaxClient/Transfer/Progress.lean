import FaxClient.Transfer.Basic

/-!
# Progress

The payload moved so far, and how much of it since progress was last announced.  It is announced
whenever the payload passes a multiple of the block size, once however many are passed.
-/

namespace FaxClient.Transfer

structure Progress where
  total : Nat
  pending : Nat
  deriving DecidableEq

namespace Progress

def zero : Progress := ⟨0, 0⟩

/-- More payload; the second part tells whether progress is announced. -/
def advance (p : Progress) (n : Nat) : Progress × Bool :=
  let pending := p.pending + n
  if blockSize ≤ pending then (⟨p.total + n, pending % blockSize⟩, true)
  else (⟨p.total + n, pending⟩, false)

@[simp] theorem total_advance (p : Progress) (n : Nat) : (p.advance n).1.total = p.total + n := by
  unfold advance
  dsimp only
  split <;> rfl

end Progress

end FaxClient.Transfer
