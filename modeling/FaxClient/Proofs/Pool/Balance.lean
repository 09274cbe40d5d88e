import FaxClient.Proofs.Pool.Action

/-!
# The books of a pool balance

The ledger keeps four lists of members and counts creations; where the members and the places
really are is not written in it.  The books balance if the lists and the count agree with the shares
outside: nobody is in two places, whoever is idle or working is known and nobody else, whoever is
flagged is working, whoever is working is in somebody's hands, and each place counted is held by a
creation.  Every section keeps them so.
-/

namespace FaxClient.Pool

namespace Ledger

/-! ## What sections make of a ledger -/

theorem reserve_eq_some {s : Settings} {l l' : Ledger} {id : MemberId}
    (h : l.reserve s = some (id, l')) : l.atCapacity s = false ∧ id = l.next ∧
      l' = { l with creating := l.creating + 1, next := ⟨l.next.number + 1⟩ } := by
  unfold reserve at h
  split at h
  · simp at h
  · next hroom =>
    obtain ⟨rfl, rfl⟩ := Prod.mk.inj (Option.some.inj h)
    exact ⟨by simpa using hroom, rfl, rfl⟩

theorem publish_eq_some {l l' : Ledger} {m : Member} (h : l.publish m = some l') :
    l' = { l with
      known := l.known.insert m.id
      idle := l.idle ++ [m]
      measured := min (l.measured + 1) measureLimit } := by
  unfold publish at h
  split at h
  · simp at h
  · exact (Option.some.inj h).symm

theorem take_eq_ready {l l' : Ledger} {isOpen : Line → Bool} {m : Member}
    (h : l.take isOpen = (.ready m, l')) : ∃ m₀ rest, l.idle = m₀ :: rest ∧ m.id = m₀.id ∧
      l' = { l with idle := rest, working := l.working.insert m₀.id } := by
  rcases l.take_cases isOpen with hcase | hcase | ⟨m₀, rest, hidle, hcase | hcase⟩ <;>
    rw [hcase] at h <;> simp only [Prod.mk.injEq, reduceCtorEq, false_and] at h
  obtain ⟨⟨⟩, rfl⟩ := h
  exact ⟨m₀, rest, hidle, rfl, rfl⟩

theorem take_eq_stale {l l' : Ledger} {isOpen : Line → Bool} {m : Member}
    (h : l.take isOpen = (.stale m, l')) :
    ∃ rest, l.idle = m :: rest ∧ l' = forget { l with idle := rest } m.id := by
  rcases l.take_cases isOpen with hcase | hcase | ⟨m₀, rest, hidle, hcase | hcase⟩ <;>
    rw [hcase] at h <;> simp only [Prod.mk.injEq, reduceCtorEq, false_and] at h
  obtain ⟨⟨⟩, rfl⟩ := h
  exact ⟨rest, hidle, rfl⟩

theorem giveBack_eq_kept {s : Settings} {l l' : Ledger} {isOpen : Line → Bool} {m : Member}
    (h : l.giveBack s isOpen m = (.kept, l')) : m.id ∈ l.known ∧ l' = { l with
      working := l.working.erase m.id
      flagged := l.flagged.erase m.id
      idle := l.idle ++ [{ m with working := false }] } := by
  rcases l.giveBack_cases s isOpen m with ⟨hknown, hcase⟩ | ⟨replace, hcase⟩ <;>
    rw [hcase] at h <;> simp only [Prod.mk.injEq, reduceCtorEq, false_and] at h
  exact ⟨hknown, h.2.symm⟩

theorem giveBack_eq_doomed {s : Settings} {l l' : Ledger} {isOpen : Line → Bool} {m m' : Member}
    {replace : Bool} (h : l.giveBack s isOpen m = (.doomed m' replace, l')) :
    m'.id = m.id ∧ l' = l.forget m.id := by
  rcases l.giveBack_cases s isOpen m with ⟨-, hcase⟩ | ⟨_, hcase⟩ <;>
    rw [hcase] at h <;> simp only [Prod.mk.injEq, reduceCtorEq, false_and] at h
  obtain ⟨⟨⟩, rfl⟩ := h
  exact ⟨rfl, rfl⟩

def strike (l : Ledger) (ids : List MemberId) : Ledger :=
  { l with
    known := l.known.diff ids
    working := l.working.diff ids
    flagged := l.flagged.diff ids }

theorem forget_eq_strike (l : Ledger) (id : MemberId) : l.forget id = l.strike [id] := by
  simp [forget, strike, List.diff_cons]

theorem foldl_forget (members : List Member) (l : Ledger) :
    members.foldl (fun l m => l.forget m.id) l = l.strike (members.map (·.id)) := by
  induction members generalizing l with
  | nil => rfl
  | cons m members ih =>
    rw [List.foldl_cons, ih, List.map_cons]
    simp [strike, forget, List.diff_cons]

theorem flush_eq_strike (l : Ledger) : l.flush.2 = strike { l with
    stopped := false
    flagged := l.working.foldl (fun ids id => ids.insert id) l.flagged
    idle := [] } (l.idle.map (·.id)) :=
  foldl_forget l.idle _

theorem mem_foldl_insert {id : MemberId} (ids ids' : List MemberId) :
    id ∈ ids.foldl (fun ids id => ids.insert id) ids' ↔ id ∈ ids' ∨ id ∈ ids := by
  induction ids generalizing ids' with
  | nil => simp
  | cons a ids ih =>
    rw [List.foldl_cons, ih, List.mem_insert_iff, List.mem_cons]
    tauto

theorem nodup_foldl_insert (ids : List MemberId) {ids' : List MemberId} (h : ids'.Nodup) :
    (ids.foldl (fun ids id => ids.insert id) ids').Nodup := by
  induction ids generalizing ids' with
  | nil => exact h
  | cons a ids ih => exact ih h.insert

/-! ## Lists -/

/-- The lists of a ledger agree with the members that are idle and with those in hands. -/
structure Listed (known working flagged : List MemberId) (idle hands : Multiset MemberId) :
    Prop where
  known_nodup : known.Nodup
  working_nodup : working.Nodup
  flagged_nodup : flagged.Nodup
  mem_known : ∀ id, id ∈ known ↔ id ∈ idle ∨ id ∈ working
  flagged_subset : ∀ id ∈ flagged, id ∈ working
  working_subset : ∀ id ∈ working, id ∈ hands

namespace Listed

variable {known working flagged : List MemberId} {idle idle' hands hands' : Multiset MemberId}

/-- Members that are struck out are not idle any more; they may still be in hands. -/
theorem strike {ids : List MemberId} (h : Listed known working flagged idle hands)
    (hidle : ∀ id, id ∈ idle' ↔ id ∈ idle ∧ id ∉ ids)
    (hhands : ∀ id ∈ hands, id ∉ ids → id ∈ hands') :
    Listed (known.diff ids) (working.diff ids) (flagged.diff ids) idle' hands' where
  known_nodup := h.known_nodup.diff
  working_nodup := h.working_nodup.diff
  flagged_nodup := h.flagged_nodup.diff
  mem_known := by
    intro id
    rw [h.known_nodup.mem_sdiff_iff, h.working_nodup.mem_sdiff_iff, h.mem_known, hidle]
    tauto
  flagged_subset := by
    intro id hid
    rw [h.flagged_nodup.mem_sdiff_iff] at hid
    rw [h.working_nodup.mem_sdiff_iff]
    exact ⟨h.flagged_subset id hid.1, hid.2⟩
  working_subset := by
    intro id hid
    rw [h.working_nodup.mem_sdiff_iff] at hid
    exact hhands id (h.working_subset id hid.1) hid.2

theorem comeBack {id : MemberId} (h : Listed known working flagged idle hands)
    (hknown : id ∈ known) (hhands : ∀ other ∈ hands, other ≠ id → other ∈ hands') :
    Listed known (working.erase id) (flagged.erase id) (idle + {id}) hands' where
  known_nodup := h.known_nodup
  working_nodup := h.working_nodup.erase id
  flagged_nodup := h.flagged_nodup.erase id
  mem_known := by
    intro other
    rw [h.working_nodup.mem_erase_iff, Multiset.mem_add, Multiset.mem_singleton]
    by_cases heq : other = id
    · subst heq
      simp [hknown]
    · simp [heq, h.mem_known other]
  flagged_subset := by
    intro other hother
    rw [h.flagged_nodup.mem_erase_iff] at hother
    rw [h.working_nodup.mem_erase_iff]
    exact ⟨hother.1, h.flagged_subset other hother.2⟩
  working_subset := by
    intro other hother
    rw [h.working_nodup.mem_erase_iff] at hother
    exact hhands other (h.working_subset other hother.2) hother.1

theorem goOut {id : MemberId} (h : Listed known working flagged ({id} + idle) hands) :
    Listed known (working.insert id) flagged idle (hands + {id}) where
  known_nodup := h.known_nodup
  working_nodup := h.working_nodup.insert
  flagged_nodup := h.flagged_nodup
  mem_known := by
    intro other
    rw [h.mem_known, Multiset.mem_add, Multiset.mem_singleton, List.mem_insert_iff]
    tauto
  flagged_subset := by
    intro other hother
    exact List.mem_insert_of_mem (h.flagged_subset other hother)
  working_subset := by
    intro other hother
    rcases List.mem_insert_iff.mp hother with rfl | hother
    · simp
    · simp [h.working_subset other hother]

theorem comeIn {id : MemberId} (h : Listed known working flagged idle hands) :
    Listed (known.insert id) working flagged (idle + {id}) hands where
  known_nodup := h.known_nodup.insert
  working_nodup := h.working_nodup
  flagged_nodup := h.flagged_nodup
  mem_known := by
    intro other
    rw [List.mem_insert_iff, h.mem_known, Multiset.mem_add, Multiset.mem_singleton]
    tauto
  flagged_subset := h.flagged_subset
  working_subset := h.working_subset

theorem flagAll (h : Listed known working flagged idle hands) :
    Listed known working (working.foldl (fun ids id => ids.insert id) flagged) idle hands where
  known_nodup := h.known_nodup
  working_nodup := h.working_nodup
  flagged_nodup := nodup_foldl_insert working h.flagged_nodup
  mem_known := h.mem_known
  flagged_subset := by
    intro id hid
    rcases (mem_foldl_insert working flagged).mp hid with hid | hid
    · exact h.flagged_subset id hid
    · exact hid
  working_subset := h.working_subset

end Listed

/-! ## Places -/

def everyone (l : Ledger) (F : Share) : Multiset MemberId :=
  memberIds l.idle + F.hands + F.arriving + F.leaving

theorem idle_add_hands_le_everyone (l : Ledger) (F : Share) :
    memberIds l.idle + F.hands ≤ l.everyone F := by
  rw [everyone, add_assoc]
  exact Multiset.le_add_right _ _

/-- Nobody is in two places, and ids that were not given out yet are new. -/
structure Placed (l : Ledger) (F : Share) : Prop where
  everyone_nodup : (l.everyone F).Nodup
  issued : ∀ id ∈ l.everyone F, id.number < l.next.number

theorem Placed.of_le {l l' : Ledger} {F F' : Share} (h : l.Placed F)
    (hle : l'.everyone F' ≤ l.everyone F) (hnext : l'.next = l.next) : l'.Placed F' where
  everyone_nodup := Multiset.nodup_of_le hle h.everyone_nodup
  issued := by
    intro id hid
    rw [hnext]
    exact h.issued id (Multiset.mem_of_le hle hid)

theorem Placed.idle_add_hands_nodup {l : Ledger} {F : Share} (h : l.Placed F) :
    (memberIds l.idle + F.hands).Nodup :=
  Multiset.nodup_of_le (l.idle_add_hands_le_everyone F) h.everyone_nodup

theorem Placed.idle_nodup {l : Ledger} {F : Share} (h : l.Placed F) : (memberIds l.idle).Nodup :=
  (Multiset.nodup_add.mp h.idle_add_hands_nodup).1

theorem Placed.hands_nodup {l : Ledger} {F : Share} (h : l.Placed F) : F.hands.Nodup :=
  (Multiset.nodup_add.mp h.idle_add_hands_nodup).2.1

theorem Placed.notMem_hands {l : Ledger} {F : Share} {id : MemberId} (h : l.Placed F)
    (hid : id ∈ memberIds l.idle) : id ∉ F.hands :=
  Multiset.disjoint_left.mp (Multiset.nodup_add.mp h.idle_add_hands_nodup).2.2 hid

/-- The books of a ledger balance against the shares outside it. -/
structure Balanced (l : Ledger) (F : Share) : Prop where
  placed : l.Placed F
  listed : Listed l.known l.working l.flagged (memberIds l.idle) F.hands
  creating_eq : l.creating = F.places

theorem balanced_empty : Ledger.empty.Balanced 0 where
  placed := ⟨Multiset.nodup_zero, by simp [everyone, empty]⟩
  listed := ⟨List.nodup_nil, List.nodup_nil, List.nodup_nil, by simp [empty], by simp [empty],
    by simp [empty]⟩
  creating_eq := rfl

namespace Balanced

variable {s : Settings} {l l' : Ledger} {F F' : Share} {m : Member} {isOpen : Line → Bool}

/-- The books balance as before if nothing but the places of members outside has changed. -/
theorem of_eq (h : l.Balanced F) (heveryone : l.everyone F' ≤ l.everyone F)
    (hhands : F'.hands = F.hands) (hplaces : F'.places = F.places) : l.Balanced F' where
  placed := h.placed.of_le heveryone rfl
  listed := by
    rw [hhands]
    exact h.listed
  creating_eq := by
    rw [hplaces]
    exact h.creating_eq

theorem reserve {id : MemberId} (h : l.Balanced F) (hreserve : l.reserve s = some (id, l')) :
    l'.Balanced (F + (.place + .arrival id)) := by
  obtain ⟨-, rfl, rfl⟩ := reserve_eq_some hreserve
  have heveryone : everyone { l with creating := l.creating + 1, next := ⟨l.next.number + 1⟩ }
      (F + (.place + .arrival l.next)) = l.next ::ₘ l.everyone F := by
    simp only [everyone, Share.place, Share.arrival, Share.hands_add, Share.arriving_add,
      Share.leaving_add, add_zero, zero_add, ← Multiset.singleton_add]
    abel
  refine ⟨⟨?_, ?_⟩, ?_, ?_⟩
  · rw [heveryone, Multiset.nodup_cons]
    exact ⟨fun hmem => lt_irrefl _ (h.placed.issued _ hmem), h.placed.everyone_nodup⟩
  · intro id hid
    rw [heveryone, Multiset.mem_cons] at hid
    rcases hid with rfl | hid
    · exact Nat.lt_succ_self _
    · exact Nat.lt_succ_of_lt (h.placed.issued id hid)
  · simpa [Share.place, Share.arrival] using h.listed
  · simpa [Share.place, Share.arrival] using h.creating_eq

theorem creating_pos (h : l.Balanced (F + (.place + F'))) : 0 < l.creating := by
  rw [h.creating_eq, Share.places_add, Share.places_add]
  simp only [Share.place]
  omega

theorem publish (h : l.Balanced (F + (.place + .arrival m.id)))
    (hpublish : l.settle.publish m = some l') : l'.Balanced F := by
  obtain rfl := publish_eq_some hpublish
  have hcreating := h.creating_eq
  simp only [Share.places_add, Share.place, Share.arrival] at hcreating
  refine ⟨h.placed.of_le (le_of_eq ?_) rfl, ?_, ?_⟩
  · simp only [everyone, settle, Share.place, Share.arrival, Share.hands_add, Share.arriving_add,
      Share.leaving_add, add_zero, zero_add, memberIds_append, memberIds_cons, memberIds_nil]
    abel
  · simpa [settle, Share.place, Share.arrival] using h.listed.comeIn
  · simp only [settle]
    omega

theorem checkOut (h : l.Balanced F) (htake : l.take isOpen = (.ready m, l')) :
    l'.Balanced (F + .held {m.id}) := by
  obtain ⟨m₀, rest, hidle, hid, rfl⟩ := take_eq_ready htake
  rw [hid]
  have hlisted := h.listed
  rw [hidle, memberIds_cons] at hlisted
  refine ⟨h.placed.of_le (le_of_eq ?_) rfl, ?_, ?_⟩
  · simp only [everyone, hidle, memberIds_cons, Share.held, Share.hands_add, Share.arriving_add,
      Share.leaving_add, add_zero]
    abel
  · simpa [Share.held] using hlisted.goOut
  · simpa [Share.held] using h.creating_eq

theorem evict (h : l.Balanced F) (htake : l.take isOpen = (.stale m, l')) :
    l'.Balanced (F + .closing {m.id}) := by
  obtain ⟨rest, hidle, rfl⟩ := take_eq_stale htake
  have heveryone : everyone (forget { l with idle := rest } m.id) (F + .closing {m.id}) =
      l.everyone F := by
    simp only [everyone, forget, hidle, memberIds_cons, Share.closing, Share.hands_add,
      Share.arriving_add, Share.leaving_add, add_zero]
    abel
  have hnotMem : m.id ∉ memberIds rest := by
    have hnodup := h.placed.idle_nodup
    rw [hidle, memberIds_cons, Multiset.singleton_add, Multiset.nodup_cons] at hnodup
    exact hnodup.1
  refine ⟨h.placed.of_le heveryone.le rfl, ?_, ?_⟩
  · rw [forget_eq_strike]
    refine h.listed.strike (fun id => ?_) (fun id hid _ => ?_)
    · simp only [strike, hidle, memberIds_cons, Multiset.mem_add, Multiset.mem_singleton,
        List.mem_singleton]
      by_cases hid : id = m.id
      · simp [hid, hnotMem]
      · simp [hid]
    · simpa [Share.closing] using hid
  · simpa [forget, Share.closing] using h.creating_eq

theorem keep (h : l.Balanced (F + .held {m.id})) (hback : l.giveBack s isOpen m = (.kept, l')) :
    l'.Balanced F := by
  obtain ⟨hknown, rfl⟩ := giveBack_eq_kept hback
  refine ⟨h.placed.of_le (le_of_eq ?_) rfl, ?_, ?_⟩
  · simp only [everyone, Share.held, Share.hands_add, Share.arriving_add, Share.leaving_add,
      add_zero, memberIds_append, memberIds_cons, memberIds_nil]
    abel
  · have hlisted : Listed l.known (l.working.erase m.id) (l.flagged.erase m.id)
        (memberIds l.idle + {m.id}) F.hands := by
      refine h.listed.comeBack hknown fun other hother hne => ?_
      simpa [Share.held, hne] using hother
    simpa using hlisted
  · simpa [Share.held] using h.creating_eq

/-- A member in somebody's hands is struck out, and is closed then. -/
theorem forget {id : MemberId} (h : l.Balanced (F + .held {id})) :
    (l.forget id).Balanced (F + .closing {id}) := by
  refine ⟨h.placed.of_le (le_of_eq ?_) rfl, ?_, ?_⟩
  · simp only [everyone, Ledger.forget, Share.held, Share.closing, Share.hands_add,
      Share.arriving_add, Share.leaving_add, add_zero]
    abel
  · rw [forget_eq_strike]
    refine h.listed.strike (fun other => ?_) (fun other hother hne => ?_)
    · rw [List.mem_singleton]
      refine ⟨fun hidle => ⟨hidle, ?_⟩, And.left⟩
      rintro rfl
      exact h.placed.notMem_hands hidle (by simp [Share.held])
    · rw [List.mem_singleton] at hne
      simpa [Share.held, Share.closing, hne] using hother
  · simpa [Ledger.forget, Share.held, Share.closing] using h.creating_eq

theorem revoke (h : l.Balanced F) (id : MemberId) : (l.revoke id).Balanced F :=
  ⟨h.placed.of_le le_rfl rfl, h.listed, h.creating_eq⟩

/-- Members that are neither idle nor in anybody's hands are none of the ledger's business. -/
theorem lose {G : Share} (h : l.Balanced (F + G)) (hG : G.Loose) : l.Balanced F := by
  refine h.of_eq ?_ ?_ ?_
  · simp only [everyone, Share.hands_add, Share.arriving_add, Share.leaving_add, hG.hands_eq,
      add_zero]
    gcongr
    · exact Multiset.le_add_right _ _
    · exact Multiset.le_add_right _ _
  · simp [hG.hands_eq]
  · simp [hG.places_eq]

theorem abandon {id : MemberId} (h : l.Balanced (F + .held {id})) : (l.abandon id).Balanced F :=
  (h.forget.lose (Share.loose_closing _)).revoke id

theorem settle (h : l.Balanced (F + .place)) : l.settle.Balanced F := by
  have hcreating := h.creating_eq
  simp only [Share.places_add, Share.place] at hcreating
  refine ⟨h.placed.of_le (le_of_eq ?_) rfl, ?_, ?_⟩
  · simp [everyone, Ledger.settle, Share.place]
  · simpa [Ledger.settle, Share.place] using h.listed
  · simp only [Ledger.settle]
    omega

theorem stop (h : l.Balanced F) : l.stop.2.2.Balanced (F + .closing (memberIds l.stop.1)) := by
  refine ⟨h.placed.of_le (le_of_eq ?_) rfl, ?_, ?_⟩
  · simp only [everyone, Ledger.stop, Share.closing, Share.hands_add, Share.arriving_add,
      Share.leaving_add, add_zero, memberIds_nil]
    abel
  · exact ⟨List.nodup_nil, List.nodup_nil, List.nodup_nil, by simp [Ledger.stop],
      by simp [Ledger.stop], by simp [Ledger.stop]⟩
  · simpa [Ledger.stop, Share.closing] using h.creating_eq

theorem flush (h : l.Balanced F) : l.flush.2.Balanced (F + .closing (memberIds l.flush.1)) := by
  rw [flush_eq_strike]
  refine ⟨h.placed.of_le (le_of_eq ?_) rfl, ?_, ?_⟩
  · simp only [everyone, Ledger.flush, strike, Share.closing, Share.hands_add, Share.arriving_add,
      Share.leaving_add, add_zero, memberIds_nil]
    abel
  · refine h.listed.flagAll.strike (fun id => ?_) (fun id hid _ => ?_)
    · -- The idle members are exactly those that are struck out.
      have hmem : id ∈ memberIds l.idle ↔ id ∈ l.idle.map (·.id) := Multiset.mem_coe
      simp [strike, hmem]
    · simpa [Share.closing] using hid
  · simpa [strike, Share.closing] using h.creating_eq

theorem of_section {x y : Ledger × Share} (hsection : Section s x y) (h : x.1.Balanced x.2) :
    y.1.Balanced y.2 := by
  cases hsection with
  | reserve F hreserve => exact h.reserve hreserve
  | settle l F => exact h.settle
  | publish F hpublish => exact h.publish hpublish
  | turnAway F id =>
    refine h.of_eq (le_of_eq ?_) rfl rfl
    simp only [everyone, Share.arrival, Share.closing, Share.hands_add, Share.arriving_add,
      Share.leaving_add, add_zero]
    abel
  | checkOut F htake => exact h.checkOut htake
  | evict F htake => exact h.evict htake
  | keep F hback => exact h.keep hback
  | doom F hback =>
    obtain ⟨hid, rfl⟩ := giveBack_eq_doomed hback
    rw [hid]
    exact h.forget
  | reopen l F => exact ⟨h.placed.of_le le_rfl rfl, h.listed, h.creating_eq⟩
  | stop l F => exact h.stop
  | flush l F => exact h.flush
  | abandon l F id => exact h.abandon
  | revoke l F id => exact h.revoke id
  | lose l F hG => exact h.lose hG

/-! What is read off balanced books. -/

theorem notMem_working (h : l.Balanced F) {id : MemberId} (hid : id ∈ l.idle.map (·.id)) :
    id ∉ l.working := by
  intro hworking
  exact h.placed.notMem_hands (Multiset.mem_coe.mpr hid) (h.listed.working_subset id hworking)

theorem idle_nodup (h : l.Balanced F) : (l.idle.map (·.id)).Nodup :=
  Multiset.coe_nodup.mp h.placed.idle_nodup

theorem mem_known (h : l.Balanced F) {id : MemberId} (hid : id ∈ l.idle.map (·.id)) :
    id ∈ l.known :=
  (h.listed.mem_known id).mpr (Or.inl (Multiset.mem_coe.mpr hid))

theorem total_eq (h : l.Balanced F) : l.total = l.idle.length + l.working.length := by
  have happend : (l.idle.map (·.id) ++ l.working).Nodup := by
    refine h.idle_nodup.append h.listed.working_nodup (List.disjoint_left.mpr ?_)
    intro id hid
    exact h.notMem_working hid
  have hperm : l.known.Perm (l.idle.map (·.id) ++ l.working) := by
    refine (List.perm_ext_iff_of_nodup h.listed.known_nodup happend).mpr fun id => ?_
    rw [h.listed.mem_known, List.mem_append]
    rfl
  simpa [total] using hperm.length_eq

/-- The flagged members are among those that take a place, so none is taken away twice. -/
theorem live_add_flagged (h : l.Balanced F) : l.live + l.flagged.length = l.occupied := by
  have hsubset : l.flagged ⊆ l.known := by
    intro id hid
    exact (h.listed.mem_known id).mpr (Or.inr (h.listed.flagged_subset id hid))
  have hlength := (h.listed.flagged_nodup.subperm hsubset).length_le
  simp only [live, occupied]
  omega

theorem settle_creating (h : l.Balanced F) (hplaces : 0 < F.places) :
    l.settle.creating + 1 = l.creating := by
  have hcreating := h.creating_eq
  simp only [Ledger.settle]
  omega

end Balanced

end Ledger

/-! ## Worlds -/

namespace World

/-- The members in callers' hands, also while a task has them on loan. -/
def handed (w : World) : List MemberId :=
  w.held.map (·.id) ++ w.tasks.filterMap fun p => p.2.held?.map (·.id)

theorem hands_taskShare (t : Task) :
    t.share.hands = ((t.held?.map (·.id)).toList : List MemberId) := by
  obtain ⟨errand, doing⟩ := t
  have hdoing : doing.share.hands = 0 := by
    cases doing with
    | creating c => simp [Doing.share, Share.place, c.loose_share.hands_eq]
    | _ => rfl
  have herrand : errand.share.hands =
      (((Task.held? ⟨errand, doing⟩).map (·.id)).toList : List MemberId) := by
    cases errand <;> rfl
  rw [Task.share, Share.hands_add, hdoing, herrand, add_zero]

theorem places_taskShare (t : Task) : t.share.places = if t.isCreating then 1 else 0 := by
  obtain ⟨errand, doing⟩ := t
  have herrand : errand.share.places = 0 := by cases errand <;> rfl
  rw [Task.share, Share.places_add, herrand, zero_add]
  cases doing with
  | creating c => simp [Doing.share, Share.place, c.loose_share.places_eq, Task.isCreating]
  | _ => rfl

theorem hands_sum (tasks : List (TaskId × Task)) :
    (tasks.map fun p : TaskId × Task => p.2.share).sum.hands =
      ↑(tasks.filterMap fun p : TaskId × Task => p.2.held?.map (·.id)) := by
  induction tasks with
  | nil => rfl
  | cons p tasks ih =>
    rw [List.map_cons, List.sum_cons, Share.hands_add, ih, hands_taskShare]
    cases hheld : p.2.held? <;> simp [hheld]

theorem hands_share (w : World) : w.share.hands = ↑w.handed := by
  rw [share, Share.hands_add, hands_sum, handed, ← Multiset.coe_add]
  rfl

theorem places_sum (tasks : List (TaskId × Task)) :
    (tasks.map fun p : TaskId × Task => p.2.share).sum.places =
      tasks.countP fun p => p.2.isCreating := by
  induction tasks with
  | nil => rfl
  | cons p tasks ih =>
    calc ((p :: tasks).map fun p : TaskId × Task => p.2.share).sum.places
      _ = p.2.share.places + (tasks.map fun p : TaskId × Task => p.2.share).sum.places := by
        rw [List.map_cons, List.sum_cons, Share.places_add]
      _ = (if p.2.isCreating then 1 else 0) + tasks.countP fun p => p.2.isCreating := by
        rw [places_taskShare, ih]
      _ = (p :: tasks).countP fun p => p.2.isCreating := by
        rw [List.countP_cons, add_comm]

theorem places_share (w : World) : w.share.places = w.tasks.countP fun p => p.2.isCreating := by
  rw [share, Share.places_add, places_sum]
  exact zero_add _

theorem Reachable.balanced {s : Settings} {w : World} (h : Reachable s w) :
    w.ledger.Balanced w.share :=
  h.invariant (P := fun x => x.1.Balanced x.2) Ledger.balanced_empty Ledger.Balanced.of_section
    fun hbalanced => hbalanced.placed.hands_nodup

/-- The books of a pool are right: they agree with each other, and with where its members and places
are. -/
structure Accounted (w : World) : Prop where
  idle_nodup : (w.ledger.idle.map (·.id)).Nodup
  idle_disjoint_working : ∀ id ∈ w.ledger.idle.map (·.id), id ∉ w.ledger.working
  known_nodup : w.ledger.known.Nodup
  working_nodup : w.ledger.working.Nodup
  flagged_nodup : w.ledger.flagged.Nodup
  mem_known_iff : ∀ id, id ∈ w.ledger.known ↔
    id ∈ w.ledger.idle.map (·.id) ∨ id ∈ w.ledger.working
  flagged_subset : ∀ id ∈ w.ledger.flagged, id ∈ w.ledger.working
  creating_eq : w.ledger.creating = w.tasks.countP fun p => p.2.isCreating
  total_eq : w.ledger.total = w.ledger.idle.length + w.ledger.working.length
  /-- Nobody is in two callers' hands. -/
  handed_nodup : w.handed.Nodup
  working_subset_handed : ∀ id ∈ w.ledger.working, id ∈ w.handed
  idle_disjoint_handed : ∀ id ∈ w.ledger.idle.map (·.id), id ∉ w.handed
  live_add_flagged : w.ledger.live + w.ledger.flagged.length = w.ledger.occupied
  /-- There is a place to give back for every creation under way. -/
  settle_creating : ∀ p ∈ w.tasks, p.2.isCreating = true →
    w.ledger.settle.creating + 1 = w.ledger.creating

theorem Reachable.handed_nodup {s : Settings} {w : World} (h : Reachable s w) :
    w.handed.Nodup := by
  have hhands := h.balanced.placed.hands_nodup
  rw [hands_share] at hhands
  exact Multiset.coe_nodup.mp hhands

theorem Reachable.mem_handed {s : Settings} {w : World} (h : Reachable s w) {id : MemberId}
    (hid : id ∈ w.ledger.working) : id ∈ w.handed := by
  have hmem := h.balanced.listed.working_subset id hid
  rwa [hands_share] at hmem

theorem Reachable.creating_eq {s : Settings} {w : World} (h : Reachable s w) :
    w.ledger.creating = w.tasks.countP fun p => p.2.isCreating := by
  rw [h.balanced.creating_eq, places_share]

theorem Reachable.accounted {s : Settings} {w : World} (h : Reachable s w) : w.Accounted := by
  have hbalanced := h.balanced
  obtain ⟨hplaced, hlisted, -⟩ := h.balanced
  have hapart : ∀ id ∈ w.ledger.idle.map (·.id), id ∉ w.handed := by
    intro id hid
    have hnotMem := hplaced.notMem_hands (Multiset.mem_coe.mpr hid)
    rwa [hands_share] at hnotMem
  have hsettle : ∀ p ∈ w.tasks, p.2.isCreating = true →
      w.ledger.settle.creating + 1 = w.ledger.creating := by
    intro p hp hpcreating
    refine hbalanced.settle_creating ?_
    rw [places_share]
    exact List.countP_pos_iff.mpr ⟨p, hp, hpcreating⟩
  exact ⟨hbalanced.idle_nodup, fun id hid => hbalanced.notMem_working hid,
    hlisted.known_nodup, hlisted.working_nodup, hlisted.flagged_nodup, hlisted.mem_known,
    hlisted.flagged_subset, h.creating_eq, hbalanced.total_eq, h.handed_nodup,
    fun _ hid => h.mem_handed hid, hapart,
    hbalanced.live_add_flagged, hsettle⟩

theorem Reachable.creating_eq_zero {s : Settings} {w : World} (h : Reachable s w)
    (htasks : ∀ p ∈ w.tasks, p.2.isCreating = false) : w.ledger.creating = 0 := by
  rw [h.creating_eq, List.countP_eq_zero]
  exact fun p hp => by simp [htasks p hp]

/-- A pool of two amid a restart: its only member is in a caller's hands, and its successor is on
its way. -/
def restarting : World where
  now := 0
  ledger := ⟨[], [⟨1⟩], [⟨1⟩], [⟨1⟩], 1, false, 1, [], ⟨3⟩⟩
  bell := ⟨true, [], [], []⟩
  tasks := [(⟨3⟩, ⟨.fill 0 .zero, .creating (.connecting ⟨2⟩)⟩)]
  finished := [(⟨1⟩, .tallied ⟨1, 0⟩), (⟨2⟩, .acquired ⟨⟨1⟩, ⟨1⟩, true, true⟩)]
  held := [⟨⟨1⟩, ⟨1⟩, true, true⟩]
  lines := [⟨1⟩]
  dead := []
  asked := [.connect, .connect]

theorem reachable_restarting : Reachable { Settings.default with maxSize := 2 } restarting := by
  refine ⟨[.begin ⟨1⟩ .start, .advance ⟨1⟩ .go, .advance ⟨1⟩ .go, .advance ⟨1⟩ (.connected ⟨1⟩),
    .advance ⟨1⟩ .go, .advance ⟨1⟩ .go, .begin ⟨2⟩ .acquire, .advance ⟨2⟩ .go,
    .begin ⟨3⟩ .restart, .advance ⟨3⟩ .go, .advance ⟨3⟩ .go, .advance ⟨3⟩ .go], ?_⟩
  rfl

theorem accounted_restarting :
    Reachable { Settings.default with maxSize := 2 } restarting ∧ restarting.Accounted :=
  ⟨reachable_restarting, Reachable.accounted reachable_restarting⟩

end World

end FaxClient.Pool
