import FaxClient.Proofs.Pool.Alone
import FaxClient.Proofs.Pool.Capacity

/-!
# A restart renews a pool

A restart closes the idle members, flags the working ones, and fills the pool up as far as there are
places beside them.  Each flagged member that comes back is closed, and makes room for one more, if
one is missing.  So however the members that were working come back, in the end the pool has the
size that it shall have, and none of its members is older than the restart.

What carries the proof is that at rest the number of the idle members is a function of the number of
the flagged ones: the smallest size, or what places the flagged ones leave.
-/

namespace FaxClient.Pool

namespace Settings

/-- How many idle members a pool has after a restart, beside so many that are flagged. -/
def quota (s : Settings) (flagged : ℕ) : ℕ :=
  if s.maxSize = 0 ∨ s.pooling = false then s.minSize else min s.minSize (s.maxSize - flagged)

/-- How many members a pool has once it is renewed. -/
def cap (s : Settings) : ℕ :=
  if s.maxSize = 0 ∨ s.pooling = false then s.minSize else min s.minSize s.maxSize

variable {s : Settings} {k n : ℕ}

theorem quota_zero (s : Settings) : s.quota 0 = s.cap := rfl

theorem quota_le_minSize : s.quota k ≤ s.minSize := by
  unfold quota
  split <;> omega

/-- A flagged member that comes back makes room for one more exactly if one is missing. -/
theorem quota_succ (hroom : s.pooling = true → s.maxSize ≠ 0 → k + 1 ≤ s.maxSize) :
    s.quota (k + 1) + (s.pooling && decide (s.quota (k + 1) < s.minSize)).toNat = s.quota k := by
  unfold quota
  cases hpooling : s.pooling with
  | false => simp
  | true =>
    by_cases hlimit : s.maxSize = 0
    · simp [hlimit]
    · have hroom := hroom hpooling hlimit
      simp only [hlimit, Bool.true_eq_false, or_self, if_false, Bool.true_and]
      by_cases hmissing : min s.minSize (s.maxSize - (k + 1)) < s.minSize
      · simp only [hmissing, decide_true, Bool.toNat_true]
        omega
      · simp only [hmissing, decide_false, Bool.toNat_false]
        omega

end Settings

/-! ## New members -/

/-- Neither the session nor the id of a member was there in a world. -/
structure World.Newcomer (b : World) (m : Member) : Prop where
  line_notMem : m.line ∉ b.lines
  next_le : b.ledger.next.number ≤ m.id.number

/-- A creation, none the worse for its course, of a member that was not there in a world. -/
def Creation.IsNew (b : World) : Creation → Prop
  | .connecting id => b.ledger.next.number ≤ id.number
  | .loggingIn m _ _ | .ended (.ok m) => b.Newcomer m
  | .closing .. | .ended (.error _) => False

namespace Ledger

/-- Since a restart the pool has got so many idle members, all of them new, and those that are still
working are flagged. -/
structure Renewed (b : World) (working : List MemberId) (n : ℕ) (l : Ledger) : Prop where
  not_stopped : l.stopped = false
  working_eq : l.working = working
  mem_flagged : ∀ id, id ∈ l.flagged ↔ id ∈ working
  idle_length : l.idle.length = n
  idle_new : ∀ m ∈ l.idle, b.Newcomer m
  next_le : b.ledger.next.number ≤ l.next.number

variable {s : Settings} {b : World} {working : List MemberId} {n : ℕ} {l l' : Ledger} {F : Share}

theorem Renewed.of_earlier {b' : World} (h : l.Renewed b working n) (hlines : b'.lines ⊆ b.lines)
    (hnext : b'.ledger.next.number ≤ b.ledger.next.number) : l.Renewed b' working n :=
  ⟨h.not_stopped, h.working_eq, h.mem_flagged, h.idle_length,
    fun m hm => ⟨fun hline => (h.idle_new m hm).line_notMem (hlines hline),
      hnext.trans (h.idle_new m hm).next_le⟩, hnext.trans h.next_le⟩

theorem Renewed.revoke (h : l.Renewed b working n) (id : MemberId) :
    (l.revoke id).Renewed b working n :=
  ⟨h.not_stopped, h.working_eq, h.mem_flagged, h.idle_length, h.idle_new, h.next_le⟩

theorem Renewed.reserve {id : MemberId} (h : l.Renewed b working n)
    (hreserve : l.reserve s = some (id, l')) : l'.Renewed b working n ∧
      b.ledger.next.number ≤ id.number := by
  obtain ⟨-, rfl, rfl⟩ := reserve_eq_some hreserve
  exact ⟨⟨h.not_stopped, h.working_eq, h.mem_flagged, h.idle_length, h.idle_new,
    Nat.le_succ_of_le h.next_le⟩, h.next_le⟩

theorem Renewed.publish {m : Member} (h : l.Renewed b working n) (hm : b.Newcomer m) :
    ∃ l', l.settle.publish m = some l' ∧ l'.Renewed b working (n + 1) := by
  cases hpublish : l.settle.publish m with
  | none => simp [Ledger.publish, settle, h.not_stopped] at hpublish
  | some l' =>
    obtain rfl := publish_eq_some hpublish
    refine ⟨_, rfl, h.not_stopped, h.working_eq, h.mem_flagged, ?_, ?_, h.next_le⟩
    · simp [settle, h.idle_length]
    · intro m' hm'
      rcases List.mem_append.mp hm' with hidle | hnew
      · exact h.idle_new m' hidle
      · obtain rfl := List.mem_singleton.mp hnew
        exact hm

theorem Renewed.forget (h : l.Renewed b working n) (hl : l.Balanced F) (id : MemberId) :
    (l.forget id).Renewed b (working.erase id) n := by
  obtain ⟨hopen, rfl, hflagged, hidle, hnew, hnext⟩ := h
  refine ⟨hopen, rfl, fun other => ?_, hidle, hnew, hnext⟩
  simp only [Ledger.forget, hl.listed.flagged_nodup.mem_erase_iff,
    hl.listed.working_nodup.mem_erase_iff, hflagged]

/-- The working members stay, and are flagged; nobody else is in the pool. -/
theorem renewed_flush (hl : b.ledger.Balanced F) :
    b.ledger.flush.2.Renewed b b.ledger.working 0 := by
  have hdisjoint : ∀ id ∈ b.ledger.working, id ∉ b.ledger.idle.map (·.id) :=
    fun id hid hidle => hl.notMem_working hidle hid
  have hworking : b.ledger.working.diff (b.ledger.idle.map (·.id)) = b.ledger.working := by
    rw [hl.listed.working_nodup.sdiff_eq_filter]
    exact List.filter_eq_self.mpr fun id hid => by simpa using hdisjoint id hid
  rw [flush_eq_strike]
  refine ⟨rfl, hworking, fun id => ?_, rfl, by simp [strike], le_rfl⟩
  rw [mem_strike_flagged (nodup_foldl_insert _ hl.listed.flagged_nodup), mem_foldl_insert]
  refine ⟨?_, fun hid => ⟨Or.inr hid, hdisjoint id hid⟩⟩
  rintro ⟨hflagged | hworking, -⟩
  · exact hl.listed.flagged_subset id hflagged
  · exact hworking

theorem Renewed.flagged_length (h : l.Renewed b working n) (hl : l.Balanced F) :
    l.flagged.length = working.length := by
  have hworking := hl.listed.working_nodup
  rw [h.working_eq] at hworking
  exact ((List.perm_ext_iff_of_nodup hl.listed.flagged_nodup hworking).mpr h.mem_flagged).length_eq

theorem Renewed.known_length (h : l.Renewed b working n) (hl : l.Balanced F) :
    l.known.length = n + working.length := by
  have htotal := hl.total_eq
  rwa [h.idle_length, h.working_eq] at htotal

theorem Renewed.occupied_eq (h : l.Renewed b working n) (hl : l.Balanced F)
    (hcreating : l.creating = 0) : l.occupied = n + working.length := by
  rw [occupied, h.known_length hl, hcreating, add_zero]

theorem Renewed.missing_eq (h : l.Renewed b working 0) (hl : l.Balanced F)
    (hcreating : l.creating = 0) : l.missing s = s.minSize := by
  have hoccupied := h.occupied_eq hl hcreating
  have hflagged := h.flagged_length hl
  simp only [missing, live]
  omega

theorem atCapacity_of_lt_quota (hoccupied : l.occupied = n + working.length)
    (hn : n < s.quota working.length) : l.atCapacity s = false := by
  unfold Settings.quota at hn
  unfold atCapacity
  split at hn
  · next hunlimited => rcases hunlimited with hlimit | hpooling <;> simp [*]
  · have hroom : ¬ s.maxSize ≤ l.occupied := by omega
    simp [hroom]

theorem lt_quota_of_not_atCapacity (hoccupied : l.occupied = n + working.length)
    (hn : n < s.minSize) (hroom : l.atCapacity s = false) : n < s.quota working.length := by
  unfold Settings.quota
  unfold atCapacity at hroom
  split
  · exact hn
  · next hlimit =>
    obtain ⟨hlimit, hpooling⟩ : s.maxSize ≠ 0 ∧ s.pooling = true := by simpa using hlimit
    have hroom : ¬ s.maxSize ≤ l.occupied := by simpa [hlimit, hpooling] using hroom
    omega

/-- A flagged member that comes back is closed, and replaced if one is missing. -/
theorem Renewed.giveBack {isOpen : Line → Bool} {m : Member} (h : l.Renewed b working n)
    (hl : l.Balanced F) (hcreating : l.creating = 0) (hm : m.id ∈ working)
    (husable : l.usable isOpen m = true) : l.giveBack s isOpen m =
      (.doomed { m with working := false } (s.pooling && decide (n < s.minSize)),
        l.forget m.id) := by
  have hworking : m.id ∈ l.working := h.working_eq.symm ▸ hm
  have hflagged : m.id ∈ l.flagged := (h.mem_flagged m.id).mpr hm
  have hknown : m.id ∈ l.known := (hl.listed.mem_known m.id).mpr (Or.inr hworking)
  have husable' : l.usable isOpen { m with working := false } = true := husable
  have hlive : Ledger.live { l with
      known := l.known.erase m.id
      working := l.working.erase m.id
      flagged := l.flagged.erase m.id } = n := by
    have hpos := List.length_pos_of_mem hm
    have hknownLength := h.known_length hl
    have hflaggedLength := h.flagged_length hl
    simp only [live, occupied, List.length_erase_of_mem hknown, List.length_erase_of_mem hflagged]
    omega
  simp only [Ledger.giveBack, List.contains_iff_mem.mpr hknown, List.contains_iff_mem.mpr hflagged,
    husable', hlive]
  simp [Ledger.forget, h.not_stopped]

end Ledger

/-! ## Creations -/

namespace Task

variable {s : Settings} {now : Time} {isOpen : Line → Bool} {b : World} {l : Ledger}
  {working : List MemberId} {n : ℕ} {errand : Errand} {signal : Signal} {st : Step}

theorem isNew_loginWith {m : Member} (h : b.Newcomer m) (rest : List Login) :
    (loginWith m rest).IsNew b := by
  cases rest <;> exact h

theorem thrives_of_isNew {c : Creation} (h : c.IsNew b) : c.thrives = true := by
  cases c with
  | closing m e limit => exact h.elim
  | ended result =>
    cases result with
    | error e => exact h.elim
    | ok m => rfl
  | _ => rfl

/-- A creation goes on, or its member becomes idle. -/
theorem step_creating_of_isNew {c : Creation} (hc : c.IsNew b) (hl : l.Renewed b working n)
    (hsignal : ∀ line, signal = .connected line → line ∉ b.lines)
    (hprospers : prospers s ⟨errand, .creating c⟩ signal = true)
    (hstep : step s now isOpen l ⟨errand, .creating c⟩ signal = some st) :
    (∃ c', c'.IsNew b ∧ st = continuing l errand (.creating c') .none) ∨
      ∃ l', l'.Renewed b working (n + 1) ∧
        st = { created s now l' errand true with ring := .once } := by
  cases Creation.stepped (thrives_of_isNew hc) (thrives_of_prospers hprospers) hstep with
  | connected id line =>
    have hnew : b.Newcomer ⟨id, line, false, true⟩ := ⟨hsignal line rfl, hc⟩
    exact Or.inl ⟨_, isNew_loginWith hnew _, rfl⟩
  | granted m request rest rest' reply hnext => exact Or.inl ⟨_, isNew_loginWith hc _, rfl⟩
  | ended m =>
    obtain ⟨l', hpublish, hl'⟩ := hl.publish hc
    exact Or.inr ⟨l', hl', by simp only [settle, hpublish]⟩

end Task

namespace World

variable {s : Settings} {b w w' last : World} {t : TaskId} {task : Task} {l : Ledger}
  {past : List Member} {signal : Signal} {st : Step}

/-- The sessions of the idle members and of those in callers' hands are all different. -/
theorem Reachable.lines_nodup (h : Reachable s w) :
    (Pool.lines w.ledger.idle ++ Pool.lines w.held).Nodup := by
  obtain ⟨n, hcomplete⟩ := h.complete
  have hle : (Pool.lines w.ledger.idle ++ Pool.lines w.held : Multiset Line) ≤ w.lines := by
    rw [hcomplete.lines_eq, ← Multiset.coe_add]
    simp only [add_assoc]
    exact add_le_add_right (Multiset.le_add_right _ _) _
  have hnodup : (w.lines : Multiset Line).Nodup := Multiset.coe_nodup.mpr hcomplete.lines_nodup
  exact Multiset.coe_nodup.mp (Multiset.nodup_of_le hle hnodup)

/-! ## The restart itself -/

/-- A restart under way. -/
inductive Renewing (s : Settings) (b : World) (l : Ledger) : List Member → Task → Prop
  | beginning (hl : l = b.ledger) : Renewing s b l [] ⟨.restart, .ready⟩
  | emptying {past left : List Member} (hidle : b.ledger.idle = past ++ left)
      (hl : l.Renewed b b.ledger.working 0) :
      Renewing s b l past ⟨.renew left ⟨past.length, 0⟩, .ready⟩
  | discarding {past left : List Member} {m : Member} (hidle : b.ledger.idle = past ++ m :: left)
      (hl : l.Renewed b b.ledger.working 0) :
      Renewing s b l past ⟨.renew left ⟨past.length, 0⟩, .discarding m⟩
  | closing {past left : List Member} {m : Member} {limit : Time}
      (hidle : b.ledger.idle = past ++ m :: left) (hl : l.Renewed b b.ledger.working 0) :
      Renewing s b l (past ++ [m]) ⟨.renew left ⟨past.length, 0⟩, .closing m limit⟩
  /-- So many creations have been tried, and as many have succeeded as there were places. -/
  | filling {left tried n : ℕ} (htried : tried + left = s.minSize)
      (hn : n = min (s.quota b.ledger.working.length) tried)
      (hl : l.Renewed b b.ledger.working n) : Renewing s b l b.ledger.idle
        ⟨.fill left ⟨b.ledger.idle.length + n, tried - n⟩, .ready⟩
  | creating {left n : ℕ} {c : Creation} (hleft : n + 1 + left = s.minSize)
      (hn : n < s.quota b.ledger.working.length) (hc : c.IsNew b)
      (hl : l.Renewed b b.ledger.working n) : Renewing s b l b.ledger.idle
        ⟨.fill left ⟨b.ledger.idle.length + n, 0⟩, .creating c⟩

/-- A restart that is over. -/
structure Restocked (s : Settings) (b : World) (l : Ledger) (past : List Member) (o : Outcome) :
    Prop where
  past_eq : past = b.ledger.idle
  outcome_eq : o = .tallied ⟨b.ledger.idle.length + s.quota b.ledger.working.length,
    s.minSize - s.quota b.ledger.working.length⟩
  renewed : l.Renewed b b.ledger.working (s.quota b.ledger.working.length)

/-- What is left to do is not begun, or the pool is filled up. -/
theorem leads_fill {isOpen : Line → Bool} {now : Time} {left tried n : ℕ}
    (hl : l.Renewed b b.ledger.working n) (htried : tried + left = s.minSize)
    (hn : n = min (s.quota b.ledger.working.length) tried)
    (hoccupied : l.occupied = n + b.ledger.working.length) :
    (Task.proceed s now isOpen l (.fill left ⟨b.ledger.idle.length + n, tried - n⟩)).Leads
      (Renewing s b) (Restocked s b) b.ledger.idle := by
  have hquota := Settings.quota_le_minSize (s := s) (k := b.ledger.working.length)
  cases left with
  | zero =>
    obtain rfl : n = s.quota b.ledger.working.length := by omega
    obtain rfl : tried = s.minSize := by omega
    exact ⟨rfl, rfl, rfl, hl⟩
  | succ left =>
    simp only [Task.proceed, Task.tryCreate]
    split
    · next id l' hreserve =>
      have hroom := (Ledger.reserve_eq_some hreserve).1
      have hlt := Ledger.lt_quota_of_not_atCapacity hoccupied (by omega) hroom
      obtain rfl : tried = n := by omega
      obtain ⟨hl', hid⟩ := hl.reserve hreserve
      rw [Nat.sub_self]
      exact ⟨by simp, .creating (by omega) hlt hid hl'⟩
    · next hreserve =>
      have hfull : ¬ n < s.quota b.ledger.working.length := by
        intro hlt
        have hroom := Ledger.atCapacity_of_lt_quota hoccupied hlt
        simp [Ledger.reserve, hroom] at hreserve
      have htally : Tally.count ⟨b.ledger.idle.length + n, tried - n⟩ false =
          ⟨b.ledger.idle.length + n, tried + 1 - n⟩ := by
        simp only [Tally.count, Bool.false_eq_true, if_false, Tally.mk.injEq, true_and]
        omega
      simp only [Task.created, htally]
      exact ⟨by simp, .filling (by omega) (by omega) hl⟩

theorem leads_renew {now : Time} {left : List Member} {m : Member}
    (hidle : b.ledger.idle = past ++ m :: left) (hl : l.Renewed b b.ledger.working 0) :
    (Task.discarded s now l (.renew left ⟨past.length, 0⟩) true).Leads
      (Renewing s b) (Restocked s b) (past ++ [m]) := by
  have hidle' : b.ledger.idle = (past ++ [m]) ++ left := by simp [hidle]
  have hnext : Renewing s b l (past ++ [m]) ⟨.renew left ⟨(past ++ [m]).length, 0⟩, .ready⟩ :=
    .emptying hidle' hl
  rw [List.length_append, List.length_singleton] at hnext
  exact ⟨by simp, hnext⟩

theorem scheme_restart (hb : Reachable s b) (hidle : (Pool.lines b.ledger.idle).Nodup) :
    Scheme s b (Renewing s b) (Restocked s b) where
  finite := by
    intro l past task h
    cases h <;> rfl
  active := by
    intro l past task h
    cases h with
    | creating hleft hn hc hl => exact Task.thrives_of_isNew hc
    | _ => rfl
  new := by
    intro l past task h m hm
    cases h with
    | @discarding past left m' hidle' hl =>
      obtain rfl : m = m' := by simpa [Task.discards] using hm
      intro hpast
      rw [hidle', Pool.lines, List.map_append, List.map_cons] at hidle
      exact (List.nodup_append.mp hidle).2.2 _ hpast _ List.mem_cons_self rfl
    | _ => simp [Task.discards] at hm
  leads := by
    intro w t past task signal st hsince htasks h hadmits hprospers hstep
    have hbalanced := hsince.reachable.balanced
    have hcreating (hready : task.isCreating = false) : w.ledger.creating = 0 :=
      hsince.reachable.creating_eq_zero (by simpa [htasks] using hready)
    cases h with
    | beginning hl =>
      cases Task.stepped hstep with
      | proceed errand =>
        rw [hl]
        have hidle' : b.ledger.idle = [] ++ b.ledger.idle := rfl
        exact ⟨by simp, .emptying hidle' (Ledger.renewed_flush hb.balanced)⟩
    | @emptying past left hidle' hl =>
      simp only [Task.discards, List.append_nil]
      cases Task.stepped hstep with
      | proceed errand =>
        cases left with
        | nil =>
          have hmissing := hl.missing_eq (s := s) hbalanced (hcreating rfl)
          have hpast : b.ledger.idle = past := by rw [hidle', List.append_nil]
          subst hpast
          simp only [Task.proceed, hmissing]
          exact ⟨by simp, .filling (n := 0) (Nat.zero_add _) (Nat.min_zero _).symm hl⟩
        | cons m left => exact ⟨by simp, .discarding hidle' hl⟩
    | @discarding past left m hidle' hl =>
      cases Task.stepped hstep with
      | close errand m limit => exact ⟨by simp, .closing hidle' (hl.revoke m.id)⟩
      | discard errand m => exact leads_renew hidle' (hl.revoke m.id)
    | @closing past left m limit hidle' hl =>
      obtain rfl := Task.eq_of_step_closing hprospers hstep
      simp only [Task.discards, List.append_nil]
      exact leads_renew hidle' hl
    | @filling left tried n htried hn hl =>
      simp only [Task.discards, List.append_nil]
      cases Task.stepped hstep with
      | proceed errand =>
        exact leads_fill hl htried hn (hl.occupied_eq hbalanced (hcreating rfl))
    | @creating left n c hleft hn hc hl =>
      simp only [Task.discards, List.append_nil]
      have hsignal := hsince.notMem_of_admits hadmits
      rcases Task.step_creating_of_isNew hc hl hsignal hprospers hstep with
        ⟨c', hc', rfl⟩ | ⟨l', hl', rfl⟩
      · exact ⟨by simp, .creating hleft hn hc' hl⟩
      · have htried : n + 1 = min (s.quota b.ledger.working.length) (n + 1) := by omega
        have hfilled := Renewing.filling hleft htried hl'
        rw [Nat.sub_self] at hfilled
        exact ⟨by simp, hfilled⟩

/-- What a restart makes of a pool. -/
structure Restarted (s : Settings) (w : World) (t : TaskId) (w' : World) : Prop where
  finished_eq : w'.finished = w.finished ++ [(t, .tallied
    ⟨w.ledger.idle.length + s.quota w.ledger.working.length,
      s.minSize - s.quota w.ledger.working.length⟩)]
  held_eq : w'.held = w.held
  working_eq : w'.ledger.working = w.ledger.working
  mem_flagged_iff : ∀ id, id ∈ w'.ledger.flagged ↔ id ∈ w.ledger.working
  idle_length : w'.ledger.idle.length = s.quota w.ledger.working.length
  idle_new : ∀ m ∈ w'.ledger.idle, w.Newcomer m
  total_eq : w'.ledger.total = s.quota w.ledger.working.length + w.ledger.working.length
  /-- The idle members are closed, each once, if that is not done already. -/
  closes_idle : ∀ m ∈ w.ledger.idle,
    w'.closes m.line = w.closes m.line + (if w.isOpen m.line then 1 else 0) ∧
      w'.isOpen m.line = false
  spares : ∀ line ∉ Pool.lines w.ledger.idle,
    w'.closes line = w.closes line ∧ w'.isOpen line = w.isOpen line

theorem Closed.closes_of_mem {members : List Member} (h : w.Closed members w')
    (hnodup : (Pool.lines members).Nodup) {m : Member} (hm : m ∈ members) :
    w'.closes m.line = w.closes m.line + (if w.isOpen m.line then 1 else 0) ∧
      w'.isOpen m.line = false := by
  have hline : m.line ∈ Pool.lines members := List.mem_map_of_mem hm
  rw [h.closes_eq, h.isOpen_eq, List.count_eq_one_of_mem hnodup hline]
  simp [hline]

theorem Closed.closes_of_notMem {members : List Member} (h : w.Closed members w') {line : Line}
    (hline : line ∉ Pool.lines members) :
    w'.closes line = w.closes line ∧ w'.isOpen line = w.isOpen line := by
  rw [h.closes_eq, h.isOpen_eq, List.count_eq_zero.mpr hline]
  simp [hline]

/-- Between two calls a pool on its way to be renewed: these of its members are still working, and
are flagged and fit for use. -/
structure Settling (s : Settings) (b : World) (working : List MemberId) (w : World) : Prop where
  reachable : Reachable s w
  tasks_eq : w.tasks = []
  renewed : w.ledger.Renewed b working (s.quota working.length)
  lines_subset : b.lines ⊆ w.lines
  fit : ∀ m ∈ w.held, m.id ∈ working → m.valid = true ∧ w.isOpen m.line = true

theorem Reachable.restarted (h : Reachable s w) (htasks : w.tasks = [])
    (hfresh : w.isFresh t = true) : (∃ last, Performs s w (.begin t .restart) last) ∧
      ∀ last, Performs s w (.begin t .restart) last → Restarted s w t last ∧
        ((∀ m ∈ last.held, m.id ∈ w.ledger.working → m.valid = true ∧ last.isOpen m.line = true) →
          Settling s w w.ledger.working last) := by
  have hact : w.act s (.begin t .restart) = some (w.launch t .restart) := by
    simp [act, hfresh, errand]
  have hbegun : Reachable s (w.launch t .restart) := h.later (later_of_act hact)
  have hone : (w.launch t .restart).tasks = [(t, ⟨.restart, .ready⟩)] := by simp [launch, htasks]
  have hnodup : (Pool.lines w.ledger.idle).Nodup := h.lines_nodup.of_append_left
  obtain ⟨hexists, hlast⟩ :=
    (scheme_restart hbegun hnodup).performs hact hbegun hone (.beginning rfl)
  refine ⟨hexists, fun last hperforms => ?_⟩
  obtain ⟨past, o, hsince, rfl, rfl, hrenewed⟩ := hlast last hperforms
  obtain ⟨hreachable, hheld, hfinished, hlines, hclosed⟩ := hsince
  have hrenewed : last.ledger.Renewed w w.ledger.working (s.quota w.ledger.working.length) :=
    hrenewed.of_earlier (List.Subset.refl _) le_rfl
  have hclosed : w.Closed w.ledger.idle last := ⟨hclosed.1, hclosed.2⟩
  refine ⟨⟨hfinished, hheld, hrenewed.working_eq, hrenewed.mem_flagged, hrenewed.idle_length,
    hrenewed.idle_new, hrenewed.known_length hreachable.balanced,
    fun m hm => hclosed.closes_of_mem hnodup hm, fun line hline => hclosed.closes_of_notMem hline⟩,
    fun hfit => ⟨hreachable, hperforms.tasks_eq, hrenewed, hlines, hfit⟩⟩

/-! ## A member comes back -/

/-- A flagged member is being given back; the others are still working. -/
inductive Replacing (s : Settings) (b : World) (working : List MemberId) (m : Member) (l : Ledger) :
    List Member → Task → Prop
  | beginning (hl : l.Renewed b working (s.quota working.length)) :
      Replacing s b working m l [] ⟨.release m, .ready⟩
  | discarding {wanted : Bool} {n : ℕ} (hl : l.Renewed b (working.erase m.id) n)
      (hn : n + wanted.toNat = s.quota (working.erase m.id).length) :
      Replacing s b working m l [] ⟨.replace wanted, .discarding { m with working := false }⟩
  | closing {wanted : Bool} {n : ℕ} {limit : Time} (hl : l.Renewed b (working.erase m.id) n)
      (hn : n + wanted.toNat = s.quota (working.erase m.id).length) :
      Replacing s b working m l [{ m with working := false }]
        ⟨.replace wanted, .closing { m with working := false } limit⟩
  | closed {wanted : Bool} {n : ℕ} (hl : l.Renewed b (working.erase m.id) n)
      (hn : n + wanted.toNat = s.quota (working.erase m.id).length) :
      Replacing s b working m l [{ m with working := false }] ⟨.replace wanted, .ready⟩
  | creating {n : ℕ} {c : Creation} (hc : c.IsNew b) (hl : l.Renewed b (working.erase m.id) n)
      (hn : n + 1 = s.quota (working.erase m.id).length) :
      Replacing s b working m l [{ m with working := false }] ⟨.replace false, .creating c⟩

/-- A flagged member was given back. -/
structure Replaced (s : Settings) (b : World) (working : List MemberId) (m : Member) (l : Ledger)
    (past : List Member) (o : Outcome) : Prop where
  past_eq : past = [{ m with working := false }]
  outcome_eq : o = .released
  renewed : l.Renewed b (working.erase m.id) (s.quota (working.erase m.id).length)

variable {m : Member} {working : List MemberId}

theorem leads_release (hl : w.ledger.Renewed b working (s.quota working.length))
    (hw : Reachable s w) (htasks : w.tasks = [(t, ⟨.release m, .ready⟩)]) (hm : m.id ∈ working)
    (hvalid : m.valid = true) (hopen : w.isOpen m.line = true) :
    (Task.proceed s w.now w.isOpen w.ledger (.release m)).Leads
      (Replacing s b working m) (Replaced s b working m) [] := by
  have hbalanced := hw.balanced
  have hcreating := hw.creating_eq_zero (by simp [htasks, Task.isCreating])
  have hknown : m.id ∈ w.ledger.known :=
    (hbalanced.listed.mem_known m.id).mpr (Or.inr (hl.working_eq.symm ▸ hm))
  have hhanded : m.id ∈ w.handed := by simp [handed, htasks, Task.held?]
  have hrevoked : m.id ∉ w.ledger.revoked := fun hid => (hw.mem_revoked_iff hhanded).mp hid hknown
  have husable : w.ledger.usable w.isOpen m = true := by
    simp [Ledger.usable, hvalid, hopen, hrevoked]
  have hlength : working.length = (working.erase m.id).length + 1 := by
    have hpos := List.length_pos_of_mem hm
    rw [List.length_erase_of_mem hm]
    omega
  have hroom : s.pooling = true → s.maxSize ≠ 0 → (working.erase m.id).length + 1 ≤ s.maxSize := by
    intro hpooling hlimit
    have hplaces := hw.occupied_le hpooling hlimit
    rw [Ledger.occupied, hl.known_length hbalanced] at hplaces
    omega
  have hquota := Settings.quota_succ hroom
  rw [← hlength] at hquota
  simp only [Task.proceed, hl.giveBack hbalanced hcreating hm husable]
  exact ⟨by simp, .discarding (hl.forget hbalanced m.id) hquota⟩

/-- The member is closed now; another is created if one is wanted, and there is a place for it. -/
theorem leads_replace {isOpen : Line → Bool} {now : Time} {wanted : Bool} {n : ℕ}
    (hl : l.Renewed b (working.erase m.id) n)
    (hn : n + wanted.toNat = s.quota (working.erase m.id).length)
    (hoccupied : l.occupied = n + (working.erase m.id).length) :
    (Task.proceed s now isOpen l (.replace wanted)).Leads
      (Replacing s b working m) (Replaced s b working m) [{ m with working := false }] := by
  cases wanted with
  | false =>
    obtain rfl : n = s.quota (working.erase m.id).length := hn
    exact ⟨rfl, rfl, rfl, hl⟩
  | true =>
    have hlt : n < s.quota (working.erase m.id).length := by
      rw [← hn]
      exact Nat.lt_succ_self n
    have hroom := Ledger.atCapacity_of_lt_quota hoccupied hlt
    simp only [Task.proceed, Task.tryCreate]
    split
    · next id l' hreserve =>
      obtain ⟨hl', hid⟩ := hl.reserve hreserve
      exact ⟨by simp, .creating hid hl' hn⟩
    · next hreserve => simp [Ledger.reserve, hroom] at hreserve

theorem scheme_release {b₀ : World} (hlines : b₀.lines ⊆ b.lines) (hm : m.id ∈ working)
    (hvalid : m.valid = true) (hopen : b.isOpen m.line = true) :
    Scheme s b (Replacing s b₀ working m) (Replaced s b₀ working m) where
  finite := by
    intro l past task h
    cases h <;> rfl
  active := by
    intro l past task h
    cases h with
    | creating hc hl hn => exact Task.thrives_of_isNew hc
    | _ => rfl
  new := by
    intro l past task h m hm
    cases h <;> simp [Task.discards, Pool.lines] at hm ⊢
  leads := by
    intro w t past task signal st hsince htasks h hadmits hprospers hstep
    have hcreating (hready : task.isCreating = false) : w.ledger.creating = 0 :=
      hsince.reachable.creating_eq_zero (by simpa [htasks] using hready)
    cases h with
    | beginning hl =>
      cases Task.stepped hstep with
      | proceed errand =>
        have hopen' : w.isOpen m.line = true := by
          rw [hsince.closed.isOpen_eq, hopen]
          rfl
        exact leads_release hl hsince.reachable htasks hm hvalid hopen'
    | discarding hl hn =>
      cases Task.stepped hstep with
      | close errand m limit => exact ⟨by simp, .closing (hl.revoke _) hn⟩
      | discard errand m => exact ⟨by simp, .closed (hl.revoke _) hn⟩
    | closing hl hn =>
      obtain rfl := Task.eq_of_step_closing hprospers hstep
      exact ⟨by simp, .closed hl hn⟩
    | closed hl hn =>
      cases Task.stepped hstep with
      | proceed errand =>
        exact leads_replace hl hn (hl.occupied_eq hsince.reachable.balanced (hcreating rfl))
    | creating hc hl hn =>
      have hsignal : ∀ line, signal = .connected line → line ∉ b₀.lines := fun line hline hmem =>
        hsince.notMem_of_admits hadmits line hline (hlines hmem)
      rcases Task.step_creating_of_isNew hc hl hsignal hprospers hstep with
        ⟨c', hc', rfl⟩ | ⟨l', hl', rfl⟩
      · exact ⟨by simp, .creating hc' hl hn⟩
      · rw [hn] at hl'
        exact ⟨rfl, rfl, rfl, hl'⟩

theorem Reachable.eq_of_line (h : Reachable s w) {m' : Member} (hm : m ∈ w.held)
    (hm' : m' ∈ w.held) (hline : m.line = m'.line) : m = m' :=
  List.inj_on_of_nodup_map h.lines_nodup.of_append_right hm hm' hline

variable {id : MemberId} {ids : List MemberId}

theorem Settling.exists_holding (h : Settling s b working w) (hid : id ∈ working) :
    ∃ m, w.holding? id = some m ∧ m ∈ w.held ∧ m.id = id := by
  have hhanded : id ∈ w.handed :=
    h.reachable.mem_handed (h.renewed.working_eq.symm ▸ hid)
  obtain ⟨m, hm, rfl⟩ : ∃ m ∈ w.held, m.id = id := by
    simpa [handed, h.tasks_eq] using hhanded
  have hsome : (w.holding? m.id).isSome := by
    rw [holding?, List.find?_isSome]
    exact ⟨m, hm, beq_self_eq_true _⟩
  obtain ⟨m', hm'⟩ := Option.isSome_iff_exists.mp hsome
  exact ⟨m', hm', mem_held_of_holding? hm', by simpa using List.find?_some hm'⟩

/-- What the release of a flagged member makes of a pool. -/
structure Returned (s : Settings) (b : World) (working : List MemberId) (w : World) (m : Member)
    (w' : World) : Prop where
  settling : Settling s b (working.erase m.id) w'
  held_eq : w'.held = (w.notHolding m.id).held
  closed : w.Closed [{ m with working := false }] w'

theorem Settling.release (h : Settling s b working w) (hid : id ∈ working)
    (hm : w.holding? id = some m) (hfresh : w.isFresh t = true) :
    (∃ last, Performs s w (.use t id .release) last) ∧
      ∀ last, Performs s w (.use t id .release) last → Returned s b working w m last := by
  have hheld := mem_held_of_holding? hm
  obtain rfl : m.id = id := by simpa using List.find?_some hm
  obtain ⟨hvalid, hopen⟩ := h.fit m hheld hid
  have hact : w.act s (.use t m.id .release) =
      some ((w.notHolding m.id).launch t (.release m)) := by
    simp [act, hfresh, hm, Use.errand]
  have hbegun := h.reachable.later (later_of_act hact)
  have hone : ((w.notHolding m.id).launch t (.release m)).tasks = [(t, ⟨.release m, .ready⟩)] := by
    simp [launch, notHolding, h.tasks_eq]
  have hlines : b.lines ⊆ ((w.notHolding m.id).launch t (.release m)).lines := h.lines_subset
  obtain ⟨hexists, hlast⟩ := (scheme_release hlines hid hvalid hopen).performs hact hbegun hone
    (.beginning h.renewed)
  refine ⟨hexists, fun last hperforms => ?_⟩
  obtain ⟨past, o, hsince, rfl, rfl, hrenewed⟩ := hlast last hperforms
  obtain ⟨hreachable, hheld', hfinished, hlines, hclosed⟩ := hsince
  have hclosed : w.Closed [{ m with working := false }] last := ⟨hclosed.1, hclosed.2⟩
  refine ⟨⟨hreachable, hperforms.tasks_eq, hrenewed,
    fun line hline => hlines (h.lines_subset hline), ?_⟩, hheld', hclosed⟩
  intro m' hm' hid'
  rw [hheld'] at hm'
  obtain ⟨hm', hne⟩ := List.mem_filter.mp hm'
  obtain ⟨hvalid', hopen'⟩ := h.fit m' hm' (List.mem_of_mem_erase hid')
  have hline : m'.line ≠ m.line := by
    intro hline
    obtain rfl := h.reachable.eq_of_line hm' hheld hline
    simp at hne
  refine ⟨hvalid', ?_⟩
  rw [(hclosed.closes_of_notMem (by simpa [Pool.lines] using hline)).2, hopen']

/-! ## All of them come back -/

/-- Members are given back one after the other, each once the one before it has been dealt with. -/
inductive Releases (s : Settings) : World → List MemberId → World → Prop
  | nil (w : World) : Releases s w [] w
  | cons {w w' last : World} {id : MemberId} {ids : List MemberId} (t : TaskId)
      (h : Performs s w (.use t id .release) w') (hrest : Releases s w' ids last) :
      Releases s w (id :: ids) last

theorem exists_isFresh (w : World) : ∃ t, w.isFresh t = true := by
  have hinfinite : Infinite TaskId := .of_injective TaskId.mk fun _ _ h => TaskId.mk.inj h
  obtain ⟨t, ht⟩ :=
    Infinite.exists_notMem_finset (w.tasks.map (·.1) ++ w.finished.map (·.1)).toFinset
  refine ⟨t, ?_⟩
  simp only [List.mem_toFinset, List.mem_append, not_or, List.mem_map, not_exists, not_and] at ht
  have hlookup {β : Type} (ps : List (TaskId × β)) (h : ∀ p ∈ ps, p.1 ≠ t) : ps.lookup t = none :=
    List.lookup_eq_none_iff.mpr fun p hp => by simpa using (h p hp).symm
  simp [isFresh, hlookup _ ht.1, hlookup _ ht.2]

theorem Settling.exists_releases (h : Settling s b working w) (hids : ids.Perm working) :
    ∃ last, Releases s w ids last := by
  induction ids generalizing w working with
  | nil => exact ⟨w, .nil w⟩
  | cons id ids ih =>
    obtain ⟨hid, hrest⟩ := List.cons_perm_iff_perm_erase.mp hids
    obtain ⟨m, hm, -, rfl⟩ := h.exists_holding hid
    obtain ⟨t, hfresh⟩ := w.exists_isFresh
    obtain ⟨⟨w', hw'⟩, hreturned⟩ := h.release hid hm hfresh
    obtain ⟨last, hlast⟩ := ih (hreturned w' hw').settling hrest
    exact ⟨last, .cons t hw' hlast⟩

/-- These members are closed, each once, and nobody else. -/
structure Dismissed (w : World) (working : List MemberId) (w' : World) : Prop where
  closes_once : ∀ m ∈ w.held, m.id ∈ working →
    w'.closes m.line = w.closes m.line + 1 ∧ w'.isOpen m.line = false
  spares : ∀ line, (∀ m ∈ w.held, m.id ∈ working → m.line ≠ line) →
    w'.closes line = w.closes line ∧ w'.isOpen line = w.isOpen line

theorem Returned.dismissed (h : Settling s b working w) (hheld : m ∈ w.held) (hid : m.id ∈ working)
    (hreturned : Returned s b working w m w') (hlater : Dismissed w' (working.erase m.id) last) :
    Dismissed w working last := by
  obtain ⟨hsettling, hheld', hclosed⟩ := hreturned
  have hworking : working.Nodup := by
    rw [← h.renewed.working_eq]
    exact h.reachable.balanced.listed.working_nodup
  have hothers : ∀ m' ∈ w'.held, m' ∈ w.held ∧ m'.id ≠ m.id := by
    intro m' hm'
    rw [hheld'] at hm'
    simpa [notHolding] using hm'
  have hapart : ∀ m' ∈ w.held, m'.id ≠ m.id → m'.line ≠ m.line := by
    intro m' hm' hne hline
    exact hne (congrArg Member.id (h.reachable.eq_of_line hm' hheld hline))
  have hnotMem {line : Line} (hne : line ≠ m.line) :
      line ∉ Pool.lines [{ m with working := false }] := by
    simpa [Pool.lines] using hne
  refine ⟨fun m' hm' hid' => ?_, fun line hline => ?_⟩
  · by_cases hsame : m'.id = m.id
    · obtain rfl := List.inj_on_of_nodup_map h.reachable.handed_nodup.of_append_left hm' hheld
        hsame
      have hclosing := hclosed.closes_of_mem (List.nodup_singleton _) List.mem_cons_self
      -- It has been closed now, and the others that come back have other sessions.
      have hspared := hlater.spares m'.line fun other hother _ =>
        hapart other (hothers other hother).1 (hothers other hother).2
      have hopen : w.isOpen m'.line = true := (h.fit m' hm' hid').2
      rw [hspared.1, hspared.2]
      simpa [hopen] using hclosing
    · have hne := hapart m' hm' hsame
      have hm'' : m' ∈ w'.held := by
        rw [hheld']
        simpa [notHolding] using ⟨hm', hsame⟩
      have honce := hlater.closes_once m' hm'' ((hworking.mem_erase_iff).mpr ⟨hsame, hid'⟩)
      rw [(hclosed.closes_of_notMem (hnotMem hne)).1] at honce
      exact honce
  · have hne : line ≠ m.line := (hline m hheld hid).symm
    have hspared := hlater.spares line fun m' hm' hid' =>
      hline m' (hothers m' hm').1 (List.mem_of_mem_erase hid')
    rw [(hclosed.closes_of_notMem (hnotMem hne)).1, (hclosed.closes_of_notMem (hnotMem hne)).2]
      at hspared
    exact hspared

theorem Releases.dismissed (hreleases : Releases s w ids last) (h : Settling s b working w)
    (hids : ids.Perm working) : Settling s b [] last ∧ Dismissed w working last := by
  induction hreleases generalizing working with
  | nil w =>
    obtain rfl := hids.nil_eq
    exact ⟨h, ⟨fun m _ hm => absurd hm List.not_mem_nil, fun line _ => ⟨rfl, rfl⟩⟩⟩
  | @cons w w' last id ids t hperforms hrest ih =>
    obtain ⟨hid, hids⟩ := List.cons_perm_iff_perm_erase.mp hids
    obtain ⟨m, hm, hheld, rfl⟩ := h.exists_holding hid
    have hfresh : w.isFresh t = true := by
      obtain ⟨next, actions, hact, -⟩ := hperforms
      cases acted hact with
      | use t id use m hfresh hm => exact hfresh
    have hreturned := (h.release hid hm hfresh).2 _ hperforms
    obtain ⟨hsettling, hdismissed⟩ := ih hreturned.settling hids
    exact ⟨hsettling, hreturned.dismissed h hheld hid hdismissed⟩

/-- What a pool is in the end, if a restart has led to one world, and all the members that were
working then have come back since another. -/
structure Converged (s : Settings) (w w' last : World) : Prop where
  idle_length : last.ledger.idle.length = s.cap
  idle_new : ∀ m ∈ last.ledger.idle, w.Newcomer m
  total_eq : last.ledger.total = s.cap
  working_eq : last.ledger.working = []
  flagged_eq : last.ledger.flagged = []
  dismissed : Dismissed w' w.ledger.working last

theorem Settling.converged (h : Settling s w [] last)
    (hdismissed : Dismissed w' w.ledger.working last) : Converged s w w' last := by
  have hidle := h.renewed.idle_length
  have htotal := h.renewed.known_length h.reachable.balanced
  have hflagged : last.ledger.flagged = [] :=
    List.eq_nil_iff_forall_not_mem.mpr fun id hid =>
      List.not_mem_nil ((h.renewed.mem_flagged id).mp hid)
  rw [List.length_nil, Settings.quota_zero] at hidle htotal
  exact ⟨hidle, h.renewed.idle_new, htotal, h.renewed.working_eq, hflagged, hdismissed⟩

/-- Restart converges: called for while nothing else is under way, it can come to its end, if all
goes well, and then the idle members are closed, as many are created as there are places for, and
the working ones are flagged.  These can come back, in any order, as long as they are fit for use;
then each is closed once, and the pool has its size, and none but new members. -/
theorem Reachable.restart_converges (h : Reachable s w) (htasks : w.tasks = [])
    (hfresh : w.isFresh t = true) :
    (∃ renewed, Performs s w (.begin t .restart) renewed) ∧
      ∀ renewed, Performs s w (.begin t .restart) renewed → Restarted s w t renewed ∧
        ∀ ids, ids.Perm w.ledger.working →
          (∀ m ∈ renewed.held, m.id ∈ ids → m.valid = true ∧ renewed.isOpen m.line = true) →
            (∃ last, Releases s renewed ids last) ∧
              ∀ last, Releases s renewed ids last → Converged s w renewed last := by
  obtain ⟨hexists, hrestarted⟩ := h.restarted htasks hfresh
  refine ⟨hexists, fun renewed hperforms => ?_⟩
  obtain ⟨hrestarted, hsettling⟩ := hrestarted renewed hperforms
  refine ⟨hrestarted, fun ids hids hfit => ?_⟩
  have hsettling := hsettling fun m hm hid => hfit m hm (hids.mem_iff.mpr hid)
  refine ⟨hsettling.exists_releases hids, fun last hreleases => ?_⟩
  obtain ⟨hlast, hdismissed⟩ := hreleases.dismissed hsettling hids
  exact hlast.converged hdismissed

def bothPlaces : Settings := { Settings.default with minSize := 2, maxSize := 2 }

/-- A pool of two, of whose members one is idle and the other is in a caller's hands. -/
def halfLent : World where
  now := 0
  ledger := ⟨[⟨⟨2⟩, ⟨2⟩, false, true⟩], [⟨2⟩, ⟨1⟩], [⟨1⟩], [], 0, false, 2, [], ⟨3⟩⟩
  bell := ⟨true, [], [], []⟩
  tasks := []
  finished := [(⟨1⟩, .tallied ⟨2, 0⟩), (⟨2⟩, .acquired ⟨⟨1⟩, ⟨1⟩, true, true⟩)]
  held := [⟨⟨1⟩, ⟨1⟩, true, true⟩]
  lines := [⟨2⟩, ⟨1⟩]
  dead := []
  asked := [.connect, .connect]

theorem reachable_halfLent : Reachable bothPlaces halfLent := by
  refine ⟨[.begin ⟨1⟩ .start, .advance ⟨1⟩ .go, .advance ⟨1⟩ .go, .advance ⟨1⟩ (.connected ⟨1⟩),
    .advance ⟨1⟩ .go, .advance ⟨1⟩ .go, .advance ⟨1⟩ (.connected ⟨2⟩), .advance ⟨1⟩ .go,
    .advance ⟨1⟩ .go, .begin ⟨2⟩ .acquire, .advance ⟨2⟩ .go], ?_⟩
  rfl

/-- A restart has closed the idle member and created one; there was no place for a second. -/
def halfRenewed : World :=
  { halfLent with
    ledger := ⟨[⟨⟨3⟩, ⟨3⟩, false, true⟩], [⟨3⟩, ⟨1⟩], [⟨1⟩], [⟨1⟩], 0, false, 3, [⟨2⟩], ⟨4⟩⟩
    finished := halfLent.finished ++ [(⟨3⟩, .tallied ⟨2, 1⟩)]
    lines := [⟨3⟩, ⟨2⟩, ⟨1⟩]
    dead := [⟨2⟩]
    asked := [.connect, .connect, .close ⟨2⟩, .connect] }

/-- The other member has come back and was closed, and a second was created. -/
def whollyRenewed : World :=
  { halfRenewed with
    ledger := ⟨[⟨⟨3⟩, ⟨3⟩, false, true⟩, ⟨⟨4⟩, ⟨4⟩, false, true⟩], [⟨4⟩, ⟨3⟩], [], [], 0, false, 4,
      [⟨1⟩, ⟨2⟩], ⟨5⟩⟩
    finished := halfRenewed.finished ++ [(⟨4⟩, .released)]
    held := []
    lines := [⟨4⟩, ⟨3⟩, ⟨2⟩, ⟨1⟩]
    dead := [⟨1⟩, ⟨2⟩]
    asked := [.connect, .connect, .close ⟨2⟩, .connect, .close ⟨1⟩, .connect] }

theorem performs_halfRenewed :
    Performs bothPlaces halfLent (.begin ⟨3⟩ .restart) halfRenewed :=
  ⟨_, [.advance ⟨3⟩ .go, .advance ⟨3⟩ .go, .advance ⟨3⟩ .go, .advance ⟨3⟩ (.closed (.ok ())),
    .advance ⟨3⟩ .go, .advance ⟨3⟩ .go, .advance ⟨3⟩ (.connected ⟨3⟩), .advance ⟨3⟩ .go,
    .advance ⟨3⟩ .go, .advance ⟨3⟩ .go], rfl, rfl, rfl⟩

theorem performs_whollyRenewed :
    Performs bothPlaces halfRenewed (.use ⟨4⟩ ⟨1⟩ .release) whollyRenewed :=
  ⟨_, [.advance ⟨4⟩ .go, .advance ⟨4⟩ .go, .advance ⟨4⟩ (.closed (.ok ())), .advance ⟨4⟩ .go,
    .advance ⟨4⟩ (.connected ⟨4⟩), .advance ⟨4⟩ .go], rfl, rfl, rfl⟩

/-- The restart makes one new member, and the release of the flagged one makes room for another. -/
theorem restart_converges_halfLent :
    Performs bothPlaces halfLent (.begin ⟨3⟩ .restart) halfRenewed ∧
      Restarted bothPlaces halfLent ⟨3⟩ halfRenewed ∧
        Releases bothPlaces halfRenewed [⟨1⟩] whollyRenewed ∧
          Converged bothPlaces halfLent halfRenewed whollyRenewed ∧
            bothPlaces.quota 1 = 1 ∧ bothPlaces.cap = 2 := by
  have hreleases : Releases bothPlaces halfRenewed [⟨1⟩] whollyRenewed :=
    .cons ⟨4⟩ performs_whollyRenewed (.nil _)
  obtain ⟨-, hrestart⟩ := reachable_halfLent.restart_converges (t := ⟨3⟩) rfl rfl
  obtain ⟨hrestarted, hconverges⟩ := hrestart halfRenewed performs_halfRenewed
  obtain ⟨-, hconverged⟩ := hconverges [⟨1⟩] (List.Perm.refl _) (by decide)
  exact ⟨performs_halfRenewed, hrestarted, hreleases, hconverged whollyRenewed hreleases, rfl, rfl⟩

end World

end FaxClient.Pool
