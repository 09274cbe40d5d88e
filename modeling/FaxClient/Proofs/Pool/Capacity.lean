import FaxClient.Proofs.Pool.Balance

/-!
# A pool never grows too large

The size of a pool is looked at in one section, and the member that is then created is put in the
ledger in a later one; whatever happens in between, its place is counted.  So it is enough that the
only section that takes a place looks first, and that no section counts a place twice: one that puts
a member in its place gives the place back.
-/

namespace FaxClient.Pool

namespace Ledger

theorem occupied_settle_le (l : Ledger) : l.settle.occupied ≤ l.occupied := by
  simp only [occupied, settle]
  omega

theorem occupied_strike_le (l : Ledger) (ids : List MemberId) :
    (l.strike ids).occupied ≤ l.occupied := by
  have hlength : (l.known.diff ids).length ≤ l.known.length := by
    rw [List.diff_eq_foldl]
    induction ids generalizing l with
    | nil => exact le_rfl
    | cons id ids ih => exact (ih { l with known := l.known.erase id }).trans List.length_erase_le
  simp only [occupied, strike]
  omega

theorem occupied_forget_le (l : Ledger) (id : MemberId) : (l.forget id).occupied ≤ l.occupied := by
  rw [forget_eq_strike]
  exact l.occupied_strike_le [id]

theorem occupied_publish_le {l l' : Ledger} {m : Member} (h : l.settle.publish m = some l')
    (hcreating : 0 < l.creating) : l'.occupied ≤ l.occupied := by
  obtain rfl := publish_eq_some h
  have hlength : (l.known.insert m.id).length ≤ l.known.length + 1 := by
    rw [List.length_insert]
    split <;> omega
  simp only [occupied, settle]
  omega

end Ledger

/-- A section that takes a place has looked whether there is one. -/
theorem Section.occupied_le {s : Settings} {x y : Ledger × Share} (h : Section s x y)
    (hx : x.1.Balanced x.2) : y.1.occupied ≤ x.1.occupied ∨
      x.1.atCapacity s = false ∧ y.1.occupied = x.1.occupied + 1 := by
  cases h with
  | reserve F hreserve =>
    right
    obtain ⟨hroom, -, rfl⟩ := Ledger.reserve_eq_some hreserve
    exact ⟨hroom, rfl⟩
  | settle l F => exact Or.inl l.occupied_settle_le
  | publish F hpublish =>
    have hcreating := hx.creating_pos
    exact Or.inl (Ledger.occupied_publish_le hpublish hcreating)
  | checkOut F htake =>
    left
    obtain ⟨m₀, rest, -, -, rfl⟩ := Ledger.take_eq_ready htake
    exact le_rfl
  | evict F htake =>
    left
    obtain ⟨rest, -, rfl⟩ := Ledger.take_eq_stale htake
    exact Ledger.occupied_forget_le _ _
  | keep F hback =>
    left
    obtain ⟨-, rfl⟩ := Ledger.giveBack_eq_kept hback
    exact le_rfl
  | doom F hback =>
    left
    obtain ⟨-, rfl⟩ := Ledger.giveBack_eq_doomed hback
    exact Ledger.occupied_forget_le _ _
  | stop l F =>
    left
    simp [Ledger.stop, Ledger.occupied]
  | flush l F =>
    left
    rw [Ledger.flush_eq_strike]
    exact Ledger.occupied_strike_le _ _
  | abandon l F id => exact Or.inl (l.occupied_forget_le id)
  | _ => exact Or.inl le_rfl

namespace World

variable {s : Settings} {w : World}

theorem Reachable.occupied_le (h : Reachable s w) (hpooling : s.pooling = true)
    (hlimit : s.maxSize ≠ 0) : w.ledger.occupied ≤ s.maxSize := by
  have hroom : ∀ {l : Ledger}, l.atCapacity s = false → l.occupied < s.maxSize := by
    intro l hl
    simpa [Ledger.atCapacity, hpooling, hlimit] using hl
  have hoccupied : w.ledger.Balanced w.share ∧ w.ledger.occupied ≤ s.maxSize := by
    refine h.invariant (P := fun x => x.1.Balanced x.2 ∧ x.1.occupied ≤ s.maxSize) ?_ ?_ ?_
    · exact ⟨Ledger.balanced_empty, Nat.zero_le _⟩
    · rintro x y hsection ⟨hbalanced, hle⟩
      refine ⟨hbalanced.of_section hsection, ?_⟩
      rcases hsection.occupied_le hbalanced with hless | ⟨hcapacity, hmore⟩
      · exact hless.trans hle
      · rw [hmore]
        exact hroom hcapacity
    · rintro x ⟨hbalanced, -⟩
      exact hbalanced.placed.hands_nodup
  exact hoccupied.2

theorem Reachable.places_le_maxSize (h : Reachable s w) (hpooling : s.pooling = true)
    (hlimit : s.maxSize ≠ 0) : w.ledger.known.length + w.ledger.creating ≤ s.maxSize ∧
      w.ledger.total ≤ s.maxSize := by
  have hoccupied := h.occupied_le hpooling hlimit
  refine ⟨hoccupied, ?_⟩
  exact (Nat.le_add_right _ _).trans hoccupied

/-- The pool is full amid a restart: one place is its member's, the other its successor's. -/
theorem places_restarting : Reachable { Settings.default with maxSize := 2 } restarting ∧
    restarting.ledger.known.length + restarting.ledger.creating = 2 ∧
      restarting.ledger.known.length + restarting.ledger.creating ≤ 2 ∧
        restarting.ledger.total ≤ 2 :=
  ⟨reachable_restarting, rfl, Reachable.places_le_maxSize reachable_restarting rfl (by decide)⟩

end World

end FaxClient.Pool
