import FaxClient.Proofs.Pool.Course

/-!
# Members that are gone do not come back

An id is given out once, to a creation, and the ledger learns of it when that creation ends.  From
then on the id is settled: it can leave the ledger, but no creation will ever bring it again.  So a
member that has left a pool has left it for good.

A restart strikes out the idle members and flags the others.  A flag stays until its member comes
back or is struck out, and a flagged member that comes back is struck out.  So nobody whom a restart
found in the pool is handed out after it.
-/

namespace FaxClient.Pool

namespace Ledger

/-! ## What sections make of one member -/

theorem notMem_flagged_of_kept {s : Settings} {l l' : Ledger} {isOpen : Line → Bool} {m : Member}
    (h : l.giveBack s isOpen m = (.kept, l')) : m.id ∉ l.flagged := by
  intro hflagged
  simp [giveBack, hflagged] at h

theorem mem_strike_known {l : Ledger} (hnodup : l.known.Nodup) (ids : List MemberId)
    (id : MemberId) : id ∈ (l.strike ids).known ↔ id ∈ l.known ∧ id ∉ ids :=
  hnodup.mem_sdiff_iff

theorem mem_strike_flagged {l : Ledger} (hnodup : l.flagged.Nodup) (ids : List MemberId)
    (id : MemberId) : id ∈ (l.strike ids).flagged ↔ id ∈ l.flagged ∧ id ∉ ids :=
  hnodup.mem_sdiff_iff

/-- The id was given out, and its creation is over. -/
structure Settled (l : Ledger) (F : Share) (id : MemberId) : Prop where
  issued : id.number < l.next.number
  notMem_arriving : id ∉ F.arriving

/-- A member that is not handed out again: if the pool knows it at all, it is flagged. -/
structure Barred (l : Ledger) (F : Share) (id : MemberId) : Prop where
  settled : l.Settled F id
  flagged_of_known : id ∈ l.known → id ∈ l.flagged

section

variable {s : Settings} {l : Ledger} {F : Share} {id : MemberId} {x y : Ledger × Share}

theorem Placed.settled (h : l.Placed F) (hid : id ∈ memberIds l.idle + F.hands) :
    l.Settled F id := by
  refine ⟨h.issued id (Multiset.mem_of_le (l.idle_add_hands_le_everyone F) hid), ?_⟩
  have hnodup := h.everyone_nodup
  rw [everyone, Multiset.nodup_add, Multiset.nodup_add] at hnodup
  exact Multiset.disjoint_left.mp hnodup.1.2.2 hid

theorem Balanced.settled (h : l.Balanced F) (hid : id ∈ l.known) : l.Settled F id := by
  refine h.placed.settled (Multiset.mem_add.mpr ?_)
  rcases (h.listed.mem_known id).mp hid with hidle | hworking
  · exact Or.inl hidle
  · exact Or.inr (h.listed.working_subset id hworking)

theorem Settled.of_section (hsection : Section s x y) (h : x.1.Settled x.2 id) :
    y.1.Settled y.2 id := by
  obtain ⟨hissued, harriving⟩ := h
  cases hsection with
  | reserve F hreserve =>
    obtain ⟨-, rfl, rfl⟩ := reserve_eq_some hreserve
    refine ⟨Nat.lt_succ_of_lt hissued, ?_⟩
    have hne : id ≠ _ := fun heq => lt_irrefl _ (heq ▸ hissued)
    simpa [Share.place, Share.arrival, hne] using harriving
  | publish F hpublish =>
    obtain rfl := publish_eq_some hpublish
    refine ⟨hissued, fun hmem => harriving ?_⟩
    simp [hmem]
  | checkOut F htake =>
    obtain ⟨m₀, rest, -, -, rfl⟩ := take_eq_ready htake
    exact ⟨hissued, by simpa [Share.held] using harriving⟩
  | evict F htake =>
    obtain ⟨rest, -, rfl⟩ := take_eq_stale htake
    exact ⟨hissued, by simpa [Share.closing] using harriving⟩
  | keep F hback =>
    obtain ⟨-, rfl⟩ := giveBack_eq_kept hback
    exact ⟨hissued, by simpa [Share.held] using harriving⟩
  | doom F hback =>
    obtain ⟨-, rfl⟩ := giveBack_eq_doomed hback
    exact ⟨hissued, by simpa [Share.held, Share.closing] using harriving⟩
  | flush l F =>
    rw [flush_eq_strike]
    exact ⟨hissued, by simpa [Share.closing] using harriving⟩
  | stop l F => exact ⟨hissued, by simpa [Share.closing] using harriving⟩
  | lose l F hG => exact ⟨hissued, fun hmem => harriving (by simp [hmem])⟩
  | turnAway F id' => exact ⟨hissued, fun hmem => harriving (by simp_all [Share.closing])⟩
  | settle l F => exact ⟨hissued, fun hmem => harriving (by simp [hmem])⟩
  | abandon l F id' => exact ⟨hissued, fun hmem => harriving (by simp [hmem])⟩
  | reopen l F => exact ⟨hissued, harriving⟩
  | revoke l F id' => exact ⟨hissued, harriving⟩

/-- A member that the pool does not know any more stays unknown: what a section adds was on its way
in. -/
theorem Settled.notMem_known_of_section (hsection : Section s x y) (hx : x.1.Balanced x.2)
    (h : x.1.Settled x.2 id) (hid : id ∉ x.1.known) : id ∉ y.1.known := by
  cases hsection with
  | reserve F hreserve =>
    obtain ⟨-, -, rfl⟩ := reserve_eq_some hreserve
    exact hid
  | publish F hpublish =>
    obtain rfl := publish_eq_some hpublish
    rw [List.mem_insert_iff]
    rintro (rfl | hknown)
    · exact h.notMem_arriving (by simp [Share.arrival])
    · exact hid hknown
  | checkOut F htake =>
    obtain ⟨m₀, rest, -, -, rfl⟩ := take_eq_ready htake
    exact hid
  | evict F htake =>
    obtain ⟨rest, -, rfl⟩ := take_eq_stale htake
    exact fun hknown => hid (List.mem_of_mem_erase hknown)
  | keep F hback =>
    obtain ⟨-, rfl⟩ := giveBack_eq_kept hback
    exact hid
  | doom F hback =>
    obtain ⟨-, rfl⟩ := giveBack_eq_doomed hback
    exact fun hknown => hid (List.mem_of_mem_erase hknown)
  | flush l F =>
    rw [flush_eq_strike]
    exact fun hknown => hid ((mem_strike_known hx.listed.known_nodup _ _).mp hknown).1
  | stop l F => exact List.not_mem_nil
  | abandon l F id' => exact fun hknown => hid (List.mem_of_mem_erase hknown)
  | _ => exact hid

/-- Striking out another member leaves the flag; striking out this one makes it unknown. -/
theorem flagged_of_known_forget (hl : l.Balanced F) (other : MemberId)
    (h : id ∈ l.known → id ∈ l.flagged) :
    id ∈ (l.forget other).known → id ∈ (l.forget other).flagged := by
  intro hknown
  rw [forget_eq_strike, mem_strike_known hl.listed.known_nodup] at hknown
  rw [forget_eq_strike, mem_strike_flagged hl.listed.flagged_nodup]
  exact ⟨h hknown.1, hknown.2⟩

/-- After a restart has begun, whoever the pool still knows is flagged. -/
theorem Balanced.mem_flagged_of_mem_known_flush (h : l.Balanced F) (hid : id ∈ l.flush.2.known) :
    id ∈ l.flush.2.flagged := by
  rw [flush_eq_strike] at hid ⊢
  obtain ⟨hknown, hnotIdle⟩ := (mem_strike_known h.listed.known_nodup _ _).mp hid
  have hworking : id ∈ l.working := by
    rcases (h.listed.mem_known id).mp hknown with hidle | hworking
    · exact absurd (Multiset.mem_coe.mp hidle) hnotIdle
    · exact hworking
  have hnodup := nodup_foldl_insert l.working h.listed.flagged_nodup
  refine (mem_strike_flagged hnodup _ _).mpr ⟨?_, hnotIdle⟩
  exact (mem_foldl_insert _ _).mpr (Or.inr hworking)

theorem Barred.of_section (hsection : Section s x y) (hx : x.1.Balanced x.2)
    (h : x.1.Barred x.2 id) : y.1.Barred y.2 id := by
  refine ⟨h.settled.of_section hsection, fun hknown => ?_⟩
  -- Only a member that was known before is known now, and it was flagged then.
  have hbefore : id ∈ x.1.known := by
    by_contra hid
    exact h.settled.notMem_known_of_section hsection hx hid hknown
  have hflagged := h.flagged_of_known hbefore
  cases hsection with
  | reserve F hreserve =>
    obtain ⟨-, -, rfl⟩ := reserve_eq_some hreserve
    exact hflagged
  | publish F hpublish =>
    obtain rfl := publish_eq_some hpublish
    exact hflagged
  | checkOut F htake =>
    obtain ⟨m₀, rest, -, -, rfl⟩ := take_eq_ready htake
    exact hflagged
  | evict F htake =>
    obtain ⟨rest, hidle, rfl⟩ := take_eq_stale htake
    rw [forget_eq_strike] at hknown ⊢
    have hne := ((mem_strike_known hx.listed.known_nodup _ _).mp hknown).2
    exact (mem_strike_flagged hx.listed.flagged_nodup _ _).mpr ⟨hflagged, hne⟩
  | @keep l l' isOpen m F hback =>
    have hne : id ≠ m.id := fun heq => notMem_flagged_of_kept hback (heq ▸ hflagged)
    obtain ⟨-, rfl⟩ := giveBack_eq_kept hback
    exact hx.listed.flagged_nodup.mem_erase_iff.mpr ⟨hne, hflagged⟩
  | doom F hback =>
    obtain ⟨-, rfl⟩ := giveBack_eq_doomed hback
    exact flagged_of_known_forget hx _ h.flagged_of_known hknown
  | flush l F => exact hx.mem_flagged_of_mem_known_flush hknown
  | stop l F => exact absurd hknown List.not_mem_nil
  | abandon l F id' => exact flagged_of_known_forget hx id' h.flagged_of_known hknown
  | _ => exact hflagged

theorem Barred.ne_of_take {isOpen : Line → Bool} {m : Member} {l' : Ledger} (h : l.Barred F id)
    (hl : l.Balanced F) (htake : l.take isOpen = (.ready m, l')) : m.id ≠ id := by
  obtain ⟨m₀, rest, hidle, hid, -⟩ := take_eq_ready htake
  rintro rfl
  have hmem : m.id ∈ l.idle.map (·.id) := by simp [hidle, hid]
  have hknown : m.id ∈ l.known :=
    (hl.listed.mem_known m.id).mpr (Or.inl (Multiset.mem_coe.mpr hmem))
  have hworking := hl.listed.flagged_subset m.id (h.flagged_of_known hknown)
  exact hl.notMem_working hmem hworking

end

end Ledger

/-! ## Handing out -/

namespace Task

variable {s : Settings} {now : Time} {l : Ledger} {errand : Errand} {m : Member}

theorem created_ne_acquired (added : Bool) :
    (created s now l errand added).progress ≠ .finished (.acquired m) := by
  unfold created
  split <;> simp [continuing, finishing]

theorem discarded_ne_acquired (success : Bool) :
    (discarded s now l errand success).progress ≠ .finished (.acquired m) := by
  unfold discarded
  split
  · simp [continuing]
  · simp [continuing]
  · simp [continuing]
  · simp [continuing]
  · exact created_ne_acquired false

theorem tryCreate_ne_acquired : (tryCreate s now l errand).progress ≠ .finished (.acquired m) := by
  unfold tryCreate
  split
  · simp [continuing]
  · exact created_ne_acquired false

theorem settle_ne_acquired (result : Except ExchangeError Member) :
    (settle s now l errand result).progress ≠ .finished (.acquired m) := by
  cases result with
  | error e => exact created_ne_acquired false
  | ok m' =>
    cases hpublish : l.settle.publish m' with
    | none => simp [settle, hpublish, continuing]
    | some l' =>
      simp only [settle, hpublish]
      exact created_ne_acquired true

theorem take_of_proceed_acquired {isOpen : Line → Bool}
    (h : (proceed s now isOpen l errand).progress = .finished (.acquired m)) :
    ∃ l', l.take isOpen = (.ready m, l') := by
  cases errand with
  | acquire deadline =>
    rcases l.take_cases isOpen with htake | htake | ⟨m₀, rest, -, htake | htake⟩
    · simp [proceed, htake, finishing] at h
    · simp only [proceed, htake] at h
      split at h <;> simp [finishing, continuing] at h
    · simp only [proceed, htake, finishing, Progress.finished.injEq, Outcome.acquired.injEq] at h
      exact ⟨_, by rw [htake, h]⟩
    · simp [proceed, htake, continuing] at h
  | grow deadline => exact absurd h tryCreate_ne_acquired
  | release m' =>
    rcases l.giveBack_cases s isOpen m' with ⟨-, hback⟩ | ⟨replace, hback⟩ <;>
      simp [proceed, hback, finishing, continuing] at h
  | replace wanted =>
    cases wanted with
    | true => exact absurd h tryCreate_ne_acquired
    | false => simp [proceed, finishing] at h
  | fill left tally =>
    cases left with
    | zero => simp [proceed, finishing] at h
    | succ left => exact absurd h tryCreate_ne_acquired
  | drain left tally => cases left <;> simp [proceed, finishing, continuing] at h
  | renew left tally => cases left <;> simp [proceed, continuing] at h
  | ask m' command =>
    simp only [proceed] at h
    split at h <;> simp [finishing, continuing] at h
  | _ => simp [proceed, continuing] at h

/-- A member is handed out by an acquisition that takes it from the idle ones, and in no other
way. -/
theorem take_of_step_acquired {t : Task} {isOpen : Line → Bool} {signal : Signal} {st : Step}
    (h : t.step s now isOpen l signal = some st) (hst : st.progress = .finished (.acquired m)) :
    ∃ l', l.take isOpen = (.ready m, l') := by
  cases stepped h with
  | proceed errand => exact take_of_proceed_acquired hst
  | create errand c c' => simp [continuing] at hst
  | settle errand result => exact absurd hst (settle_ne_acquired result)
  | close errand m' limit => simp [continuing] at hst
  | discard errand m' => exact absurd hst (discarded_ne_acquired true)
  | closed errand m' limit success => exact absurd hst (discarded_ne_acquired success)
  | wake errand limit => simp [continuing] at hst
  | answer m' command r => simp [finishing] at hst
  | leave m' r => simp [finishing] at hst

end Task

namespace World

variable {s : Settings} {w w' : World} {id : MemberId}

/-- From one moment to the next an acquisition ends, and its caller has the member. -/
def HandsOut (w w' : World) (id : MemberId) : Prop :=
  ∃ t m, w'.finished = w.finished ++ [(t, .acquired m)] ∧ m.id = id

theorem take_of_handsOut {a : Action} (h : w.act s a = some w') (hout : w.HandsOut w' id) :
    ∃ m l, w.ledger.take w.isOpen = (.ready m, l) ∧ m.id = id := by
  obtain ⟨t, m, hfinished, hid⟩ := hout
  have hsame (hw : w'.finished = w.finished) : False := by
    rw [hw] at hfinished
    simp at hfinished
  cases acted h with
  | advance t' signal task step htask hadmits hstep =>
    rw [finished_after, List.append_cancel_left_eq] at hfinished
    have hprogress : step.progress = .finished (.acquired m) := by
      cases hstepped : step.progress with
      | running next => simp [hstepped, Progress.outcome?] at hfinished
      | finished o =>
        simp only [hstepped, Progress.outcome?, Option.map_some, Option.toList_some,
          List.cons.injEq, Prod.mk.injEq, and_true] at hfinished
        rw [hfinished.2]
    obtain ⟨l, htake⟩ := Task.take_of_step_acquired hstep hprogress
    exact ⟨m, l, htake, hid⟩
  | _ => exact (hsame rfl).elim

/-! ## For good -/

theorem Reachable.notMem_known_later (h : Reachable s w) (hid : w.ledger.Settled w.share id)
    (hunknown : id ∉ w.ledger.known) (hlater : Later s w w') : id ∉ w'.ledger.known := by
  have hkept := h.stable (P := fun x => x.1.Settled x.2 id ∧ id ∉ x.1.known) ⟨hid, hunknown⟩
    (fun hsection hx hP =>
      ⟨hP.1.of_section hsection, hP.1.notMem_known_of_section hsection hx hP.2⟩)
    hlater
  exact hkept.2

theorem Reachable.settled_later (h : Reachable s w) (hid : w.ledger.Settled w.share id)
    (hlater : Later s w w') : w'.ledger.Settled w'.share id :=
  h.stable (P := fun x => x.1.Settled x.2 id) hid (fun hsection _ hP => hP.of_section hsection)
    hlater

theorem Reachable.barred_later (h : Reachable s w) (hid : w.ledger.Barred w.share id)
    (hlater : Later s w w') : w'.ledger.Barred w'.share id :=
  h.stable (P := fun x => x.1.Barred x.2 id) hid (fun hsection hx hP => hP.of_section hsection hx)
    hlater

/-- Once a restart has begun, everybody it found in the pool is barred. -/
theorem Reachable.barred_of_restart {t : TaskId} (h : Reachable s w)
    (htask : w.task? t = some ⟨.restart, .ready⟩) (hact : w.act s (.advance t .go) = some w')
    (hid : id ∈ w.ledger.known) : w'.ledger.Barred w'.share id := by
  have hbalanced := h.balanced
  refine ⟨h.settled_later (hbalanced.settled hid) (later_of_act hact), fun hknown => ?_⟩
  have hledger : w'.ledger = w.ledger.flush.2 := by
    rw [act_advance_go htask] at hact
    obtain rfl := Option.some.inj hact
    rw [ledger_after]
    rfl
  rw [hledger] at hknown ⊢
  exact hbalanced.mem_flagged_of_mem_known_flush hknown

/-- A member that has left the pool is never in it again, and one that was in it when a restart
began is not handed out any more. -/
theorem Reachable.gone_for_good (h : Reachable s w) :
    (∀ later last, ∀ id ∈ w.ledger.known, Later s w later → id ∉ later.ledger.known →
      Later s later last → id ∉ last.ledger.known ∧ id ∉ last.ledger.idle.map (·.id) ∧
        id ∉ last.ledger.working) ∧
      ∀ t restarted, w.task? t = some ⟨.restart, .ready⟩ →
        w.act s (.advance t .go) = some restarted → ∀ later next a, Later s restarted later →
          later.act s a = some next → ∀ id ∈ w.ledger.known, ¬ later.HandsOut next id := by
  constructor
  · intro later last id hid hlater hleft hlast
    have hsettled := h.settled_later (h.balanced.settled hid) hlater
    have hunknown := (h.later hlater).notMem_known_later hsettled hleft hlast
    have hlisted := ((h.later hlater).later hlast).balanced.listed
    refine ⟨hunknown, fun hidle => hunknown ?_, fun hworking => hunknown ?_⟩
    · exact (hlisted.mem_known id).mpr (Or.inl (Multiset.mem_coe.mpr hidle))
    · exact (hlisted.mem_known id).mpr (Or.inr hworking)
  · intro t restarted htask hact later next a hlater hnext id hid hout
    have hrestarted := h.later (later_of_act hact)
    have hbarred := hrestarted.barred_later (h.barred_of_restart htask hact hid) hlater
    obtain ⟨m, l, htake, hm⟩ := take_of_handsOut hnext hout
    exact hbarred.ne_of_take (hrestarted.later hlater).balanced htake hm

def twoPlaces : Settings := { Settings.default with maxSize := 2 }

/-- A pool of two whose only member is in a caller's hands when a restart is called for. -/
def recalled : World where
  now := 0
  ledger := ⟨[], [⟨1⟩], [⟨1⟩], [], 0, false, 1, [], ⟨2⟩⟩
  bell := ⟨true, [], [], []⟩
  tasks := [(⟨3⟩, ⟨.restart, .ready⟩)]
  finished := [(⟨1⟩, .tallied ⟨1, 0⟩), (⟨2⟩, .acquired ⟨⟨1⟩, ⟨1⟩, true, true⟩)]
  held := [⟨⟨1⟩, ⟨1⟩, true, true⟩]
  lines := [⟨1⟩]
  dead := []
  asked := [.connect]

theorem reachable_recalled : Reachable twoPlaces recalled := by
  refine ⟨[.begin ⟨1⟩ .start, .advance ⟨1⟩ .go, .advance ⟨1⟩ .go, .advance ⟨1⟩ (.connected ⟨1⟩),
    .advance ⟨1⟩ .go, .advance ⟨1⟩ .go, .begin ⟨2⟩ .acquire, .advance ⟨2⟩ .go,
    .begin ⟨3⟩ .restart], ?_⟩
  rfl

/-- The restart has begun, the member has come back, and its successor is about to be handed out. -/
def renewed : World :=
  { restarting with
    ledger := ⟨[⟨⟨2⟩, ⟨2⟩, false, true⟩], [⟨2⟩], [], [], 0, false, 2, [], ⟨3⟩⟩
    tasks := [(⟨3⟩, ⟨.fill 0 ⟨1, 0⟩, .ready⟩),
      (⟨4⟩, ⟨.replace false, .discarding ⟨⟨1⟩, ⟨1⟩, false, true⟩⟩), (⟨5⟩, ⟨.acquire 30000, .ready⟩)]
    held := []
    lines := [⟨2⟩, ⟨1⟩] }

/-- The successor is handed out, and the member that the restart found is not. -/
theorem gone_for_good_recalled : ∃ restarted next : World,
    recalled.act twoPlaces (.advance ⟨3⟩ .go) = some restarted ∧
      Later twoPlaces restarted renewed ∧
        renewed.act twoPlaces (.advance ⟨5⟩ .go) = some next ∧
          renewed.HandsOut next ⟨2⟩ ∧ ¬ renewed.HandsOut next ⟨1⟩ ∧
            ⟨1⟩ ∈ recalled.ledger.known ∧ ⟨1⟩ ∉ renewed.ledger.known ∧ ⟨1⟩ ∉ next.ledger.known := by
  have hbegun : recalled.act twoPlaces (.advance ⟨3⟩ .go) =
      some (recalled.after ⟨3⟩ .go (Task.proceed _ _ _ recalled.ledger .restart)) := rfl
  have hlater : Later twoPlaces
      (recalled.after ⟨3⟩ .go (Task.proceed twoPlaces recalled.now
        recalled.isOpen recalled.ledger .restart)) renewed :=
    ⟨[.advance ⟨3⟩ .go, .advance ⟨3⟩ .go, .use ⟨4⟩ ⟨1⟩ .release, .advance ⟨4⟩ .go,
      .advance ⟨3⟩ (.connected ⟨2⟩), .advance ⟨3⟩ .go, .begin ⟨5⟩ .acquire], rfl⟩
  have hnext : renewed.act twoPlaces (.advance ⟨5⟩ .go) =
      some (renewed.after ⟨5⟩ .go (Task.proceed _ _ renewed.isOpen renewed.ledger
        (.acquire 30000))) := rfl
  obtain ⟨hleft, hbarred⟩ := Reachable.gone_for_good reachable_recalled
  refine ⟨_, _, hbegun, hlater, hnext, ⟨⟨5⟩, _, rfl, rfl⟩, ?_, by decide, by decide, ?_⟩
  · exact hbarred ⟨3⟩ _ rfl hbegun _ _ _ hlater hnext ⟨1⟩ (by decide)
  · exact (hleft renewed _ ⟨1⟩ (by decide) ((later_of_act hbegun).trans hlater) (by decide)
      (later_of_act hnext)).1

end World

end FaxClient.Pool
