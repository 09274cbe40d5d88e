import FaxClient.Proofs.Pool.Departure

/-!
# Who is revoked

A member in a caller's hands is revoked exactly when the pool does not know it any more.  Two
invariants make this up: whoever is revoked has left the pool for good, and whoever is in hands and
unknown is revoked.  The only section that strikes out members in hands which stay there is a stop,
and it revokes them.
-/

namespace FaxClient.Pool.Ledger

variable {s : Settings} {l : Ledger} {F : Share} {id : MemberId} {x y : Ledger × Share}

/-- The revoked members are gone, and those in hands that are gone are revoked. -/
structure Marked (l : Ledger) (F : Share) : Prop where
  settled_of_revoked : ∀ id ∈ l.revoked, l.Settled F id
  notMem_known_of_revoked : ∀ id ∈ l.revoked, id ∉ l.known
  revoked_of_notMem_known : ∀ id ∈ F.hands, id ∉ l.known → id ∈ l.revoked

theorem marked_empty : Ledger.empty.Marked 0 := ⟨by simp [empty], by simp [empty], by simp⟩

theorem mem_revoke {other : MemberId} :
    id ∈ (l.revoke other).revoked ↔ id = other ∨ id ∈ l.revoked :=
  List.mem_insert_iff

theorem mem_stop_revoked :
    id ∈ l.stop.2.2.revoked ↔ id ∈ l.revoked ∨ id ∈ l.working ∧ id ∈ l.known := by
  simp only [stop, mem_foldl_insert, List.mem_filter, List.contains_iff_mem]

theorem Placed.settled_of_leaving (h : l.Placed F) (hid : id ∈ F.leaving) : l.Settled F id := by
  refine ⟨h.issued id (by simp [everyone, hid]), fun harriving => ?_⟩
  have hnodup := h.everyone_nodup
  rw [everyone, Multiset.nodup_add] at hnodup
  exact Multiset.disjoint_left.mp hnodup.2.2 (by simp [harriving]) hid

theorem Balanced.notMem_known_of_leaving (h : l.Balanced F) (hid : id ∈ F.leaving) :
    id ∉ l.known := by
  have hnodup := h.placed.everyone_nodup
  rw [everyone, Multiset.nodup_add] at hnodup
  intro hknown
  refine Multiset.disjoint_left.mp hnodup.2.2 ?_ hid
  rcases (h.listed.mem_known id).mp hknown with hidle | hworking
  · simp [hidle]
  · simp [h.listed.working_subset id hworking]

theorem Balanced.mem_working (h : l.Balanced F) (hhands : id ∈ F.hands) (hknown : id ∈ l.known) :
    id ∈ l.working := by
  rcases (h.listed.mem_known id).mp hknown with hidle | hworking
  · exact absurd hhands (h.placed.notMem_hands hidle)
  · exact hworking

theorem Balanced.mem_stop_revoked (h : l.Balanced F) (hmarked : l.Marked F) (hid : id ∈ F.hands) :
    id ∈ l.stop.2.2.revoked := by
  rw [Ledger.mem_stop_revoked]
  by_cases hknown : id ∈ l.known
  · exact Or.inr ⟨h.mem_working hid hknown, hknown⟩
  · exact Or.inl (hmarked.revoked_of_notMem_known id hid hknown)

/-- A section leaves the revoked members as they are, or it is that of a stop, or it revokes a
member that is gone then. -/
theorem revoked_cases (hsection : Section s x y) (hx : x.1.Balanced x.2) :
    y.1.revoked = x.1.revoked ∨ y.1 = x.1.stop.2.2 ∨
      ∃ other, y.1.revoked = (x.1.revoke other).revoked ∧ x.1.Settled x.2 other ∧
        other ∉ y.1.known := by
  cases hsection with
  | reserve F hreserve =>
    obtain ⟨-, -, rfl⟩ := reserve_eq_some hreserve
    exact Or.inl rfl
  | publish F hpublish =>
    obtain rfl := publish_eq_some hpublish
    exact Or.inl rfl
  | checkOut F htake =>
    obtain ⟨m₀, rest, -, -, rfl⟩ := take_eq_ready htake
    exact Or.inl rfl
  | evict F htake =>
    obtain ⟨rest, -, rfl⟩ := take_eq_stale htake
    exact Or.inl rfl
  | keep F hback =>
    obtain ⟨-, rfl⟩ := giveBack_eq_kept hback
    exact Or.inl rfl
  | doom F hback =>
    obtain ⟨-, rfl⟩ := giveBack_eq_doomed hback
    exact Or.inl rfl
  | flush l F =>
    rw [flush_eq_strike]
    exact Or.inl rfl
  | stop l F => exact Or.inr (Or.inl rfl)
  | abandon l F id =>
    have hgone : id ∉ (l.abandon id).known := hx.listed.known_nodup.not_mem_erase
    exact Or.inr (Or.inr ⟨id, rfl, hx.placed.settled (by simp [Share.held]), hgone⟩)
  | revoke l F id =>
    have hleaving : id ∈ (F + Share.closing {id}).leaving := by simp [Share.closing]
    exact Or.inr (Or.inr ⟨id, rfl, hx.placed.settled_of_leaving hleaving,
      hx.notMem_known_of_leaving hleaving⟩)
  | _ => exact Or.inl rfl

theorem revoked_subset_of_section (hsection : Section s x y) (hx : x.1.Balanced x.2)
    (hid : id ∈ x.1.revoked) : id ∈ y.1.revoked := by
  rcases revoked_cases hsection hx with hsame | hstop | ⟨other, hrevoked, -, -⟩
  · rw [hsame]
    exact hid
  · rw [hstop]
    exact Ledger.mem_stop_revoked.mpr (Or.inl hid)
  · rw [hrevoked]
    exact mem_revoke.mpr (Or.inr hid)

/-- Whom a section revokes was settled before, and is unknown afterwards. -/
theorem settled_of_revoked_of_section (hsection : Section s x y) (hx : x.1.Balanced x.2)
    (hid : id ∈ y.1.revoked) :
    id ∈ x.1.revoked ∨ x.1.Settled x.2 id ∧ id ∉ y.1.known := by
  rcases revoked_cases hsection hx with hsame | hstop | ⟨other, hrevoked, hsettled, hgone⟩
  · exact Or.inl (hsame ▸ hid)
  · rw [hstop] at hid ⊢
    rcases Ledger.mem_stop_revoked.mp hid with hbefore | ⟨-, hknown⟩
    · exact Or.inl hbefore
    · exact Or.inr ⟨hx.settled hknown, List.not_mem_nil⟩
  · rw [hrevoked] at hid
    rcases mem_revoke.mp hid with rfl | hbefore
    · exact Or.inr ⟨hsettled, hgone⟩
    · exact Or.inl hbefore

/-- Whom a section leaves in hands, or puts there, the pool knows as before, unless it revokes
them. -/
theorem known_of_hands_of_section (hsection : Section s x y) (hx : x.1.Balanced x.2)
    (hid : id ∈ y.2.hands) (hunknown : id ∉ y.1.known) :
    id ∈ y.1.revoked ∨ id ∈ x.2.hands ∧ id ∉ x.1.known := by
  -- Whoever is struck out alone has left all hands.
  have hforget {l : Ledger} {F : Share} {other : MemberId} (hl : l.Balanced (F + .held {other}))
      (hhands : id ∈ F.hands) (hunknown : id ∉ l.known.erase other) :
      id ∈ (F + .held {other}).hands ∧ id ∉ l.known := by
    refine ⟨by simp [hhands], fun hknown => hunknown ?_⟩
    have hne : id ≠ other := by
      rintro rfl
      have hnodup := hl.placed.hands_nodup
      rw [Share.hands_add, Multiset.nodup_add] at hnodup
      exact Multiset.disjoint_left.mp hnodup.2.2 hhands (by simp [Share.held])
    exact (List.mem_erase_of_ne hne).mpr hknown
  cases hsection with
  | reserve F hreserve =>
    obtain ⟨-, -, rfl⟩ := reserve_eq_some hreserve
    exact Or.inr ⟨by simpa [Share.place, Share.arrival] using hid, hunknown⟩
  | settle l F => exact Or.inr ⟨by simp [hid], hunknown⟩
  | publish F hpublish =>
    obtain rfl := publish_eq_some hpublish
    exact Or.inr ⟨by simp [hid], fun hknown => hunknown (List.mem_insert_of_mem hknown)⟩
  | turnAway F id' => exact Or.inr ⟨by simpa [Share.closing, Share.arrival] using hid, hunknown⟩
  | checkOut F htake =>
    obtain ⟨m₀, rest, hidle, hm, rfl⟩ := take_eq_ready htake
    rw [Share.hands_add, Multiset.mem_add] at hid
    rcases hid with hid | hid
    · exact Or.inr ⟨hid, hunknown⟩
    · -- The member that is checked out is known.
      obtain rfl := Multiset.mem_singleton.mp hid
      refine absurd ((hx.listed.mem_known _).mpr (Or.inl ?_)) hunknown
      simp [hidle, hm]
  | evict F htake =>
    obtain ⟨rest, hidle, rfl⟩ := take_eq_stale htake
    have hhands : id ∈ F.hands := by simpa [Share.closing] using hid
    refine Or.inr ⟨hhands, fun hknown => hunknown ?_⟩
    refine (List.mem_erase_of_ne ?_).mpr hknown
    rintro rfl
    exact hx.placed.notMem_hands (by simp [hidle]) hhands
  | keep F hback =>
    obtain ⟨-, rfl⟩ := giveBack_eq_kept hback
    exact Or.inr ⟨by simp [hid], hunknown⟩
  | doom F hback =>
    obtain ⟨-, rfl⟩ := giveBack_eq_doomed hback
    exact Or.inr (hforget hx (by simpa [Share.closing] using hid) hunknown)
  | reopen l F => exact Or.inr ⟨hid, hunknown⟩
  | stop l F =>
    have hhands : id ∈ F.hands := by simpa [Share.closing] using hid
    by_cases hknown : id ∈ l.known
    · exact Or.inl (Ledger.mem_stop_revoked.mpr (Or.inr ⟨hx.mem_working hhands hknown, hknown⟩))
    · exact Or.inr ⟨hhands, hknown⟩
  | flush l F =>
    have hhands : id ∈ F.hands := by simpa [Share.closing] using hid
    refine Or.inr ⟨hhands, fun hknown => hunknown ?_⟩
    rw [flush_eq_strike]
    refine (mem_strike_known hx.listed.known_nodup _ _).mpr ⟨hknown, fun hidle => ?_⟩
    exact hx.placed.notMem_hands (Multiset.mem_coe.mpr hidle) hhands
  | abandon l F id' => exact Or.inr (hforget hx hid hunknown)
  | revoke l F id' => exact Or.inr ⟨hid, hunknown⟩
  | lose l F hG => exact Or.inr ⟨by simp [hid], hunknown⟩

theorem Marked.of_section (hsection : Section s x y) (hx : x.1.Balanced x.2)
    (h : x.1.Marked x.2) : y.1.Marked y.2 where
  settled_of_revoked := by
    intro id hid
    rcases settled_of_revoked_of_section hsection hx hid with hbefore | ⟨hsettled, -⟩
    · exact (h.settled_of_revoked id hbefore).of_section hsection
    · exact hsettled.of_section hsection
  notMem_known_of_revoked := by
    intro id hid
    rcases settled_of_revoked_of_section hsection hx hid with hbefore | ⟨-, hunknown⟩
    · exact (h.settled_of_revoked id hbefore).notMem_known_of_section hsection hx
        (h.notMem_known_of_revoked id hbefore)
    · exact hunknown
  revoked_of_notMem_known := by
    intro id hid hunknown
    rcases known_of_hands_of_section hsection hx hid hunknown with hrevoked | ⟨hhands, hbefore⟩
    · exact hrevoked
    · exact revoked_subset_of_section hsection hx (h.revoked_of_notMem_known id hhands hbefore)

end FaxClient.Pool.Ledger

namespace FaxClient.Pool.World

variable {s : Settings} {w w' : World} {id : MemberId}

theorem Reachable.marked (h : Reachable s w) : w.ledger.Marked w.share :=
  Reachable.stable (P := fun x => x.1.Marked x.2) ⟨[], rfl⟩ Ledger.marked_empty
    (fun hsection hx hP => hP.of_section hsection hx) h

theorem mem_hands_iff : id ∈ w.share.hands ↔ id ∈ w.handed := by
  rw [hands_share, Multiset.mem_coe]

theorem Reachable.mem_revoked_iff (h : Reachable s w) (hid : id ∈ w.handed) :
    id ∈ w.ledger.revoked ↔ id ∉ w.ledger.known :=
  ⟨h.marked.notMem_known_of_revoked id,
    h.marked.revoked_of_notMem_known id (mem_hands_iff.mpr hid)⟩

theorem Reachable.mem_revoked_later (h : Reachable s w) (hid : id ∈ w.ledger.revoked)
    (hlater : Later s w w') : id ∈ w'.ledger.revoked :=
  h.stable (P := fun x => id ∈ x.1.revoked) hid
    (fun hsection hx => Ledger.revoked_subset_of_section hsection hx) hlater

end FaxClient.Pool.World
