import FaxClient.Proofs.Pool.Drain
import FaxClient.Proofs.Pool.Exhaustion
import FaxClient.Proofs.Pool.Unfolding

/-!
# Members that are not fit to be handed out again

A member comes into a caller's hands from the idle queue, and it comes onto the queue when its
creation ends, or when it is given back valid, known and in a pool that keeps its members.  So it is
enough that a member which is known to the pool is invalid wherever a caller has it: nobody makes it
valid again.
-/

namespace FaxClient.Pool

namespace Ledger

variable {s : Settings} {l l' : Ledger} {isOpen : Line → Bool} {m : Member} {id : MemberId}

theorem valid_of_kept (h : l.giveBack s isOpen m = (.kept, l')) :
    s.pooling = true ∧ m.valid = true := by
  constructor
  · by_contra hpooling
    simp [giveBack, hpooling] at h
  · by_contra hvalid
    simp [giveBack, usable, hvalid] at h

theorem giveBack_of_shut (h : isOpen m.line = false) :
    ∃ replace, l.giveBack s isOpen m =
      (.doomed { m with working := false } replace, l.forget m.id) := by
  rcases l.giveBack_cases s isOpen m with ⟨-, hback⟩ | hback
  · simp [giveBack, usable, h] at hback
  · exact hback

end Ledger

/-! ## Who comes into hands and onto the queue -/

def Outcome.member? : Outcome → Option Member
  | .acquired m | .answered m _ | .left m _ => some m
  | .refused _ | .released | .tallied _ => none

/-- Whom an outcome hands out. -/
def Outcome.acquired? : Outcome → Option MemberId
  | .acquired m => some m.id
  | _ => none

/-- The member that is in a caller's hands after a step. -/
def Progress.member? : Progress → Option Member
  | .running t => t.held?
  | .finished o => o.member?

namespace Task

variable {s : Settings} {now : Time} {isOpen : Line → Bool} {l : Ledger} {errand : Errand}
  {m : Member} {id : MemberId} {t : Task} {signal : Signal} {st : Step}

theorem member?_created (added : Bool) : (created s now l errand added).progress.member? = none := by
  unfold created
  split <;> rfl

theorem member?_discarded (success : Bool) :
    (discarded s now l errand success).progress.member? = none := by
  unfold discarded
  split
  · rfl
  · rfl
  · rfl
  · rfl
  · exact member?_created false

theorem member?_tryCreate (doing : Doing) (hheld : held? ⟨errand, doing⟩ = none) :
    (tryCreate s now l errand).progress.member? = none := by
  unfold tryCreate
  split
  · exact hheld
  · exact member?_created false

/-- A ready task has a member in hands afterwards if it is handed one, and if it had one that it does
not give back. -/
theorem member?_proceed (h : (proceed s now isOpen l errand).progress.member? = some m) :
    (∃ deadline l', errand = .acquire deadline ∧ l.take isOpen = (.ready m, l')) ∨
      (∃ command, errand = .ask m command) ∨
        ∃ m₀, errand = .leave m₀ ∧ m = { m₀ with valid := false } := by
  cases errand with
  | acquire deadline =>
    rcases l.take_cases isOpen with htake | htake | ⟨m₀, rest, hidle, htake | htake⟩
    · simp [proceed, htake, finishing, Progress.member?, Outcome.member?] at h
    · simp only [proceed, htake] at h
      split at h <;> simp [finishing, continuing, Progress.member?, Outcome.member?, held?] at h
    · simp only [proceed, htake, finishing, Progress.member?, Outcome.member?,
        Option.some.injEq] at h
      exact Or.inl ⟨deadline, _, rfl, h ▸ htake⟩
    · simp [proceed, htake, continuing, Progress.member?, held?] at h
  | grow deadline =>
    rw [proceed, member?_tryCreate .ready rfl] at h
    simp at h
  | release m₀ =>
    rcases l.giveBack_cases s isOpen m₀ with ⟨-, hback⟩ | ⟨replace, hback⟩ <;>
      simp [proceed, hback, finishing, continuing, Progress.member?, Outcome.member?, held?] at h
  | replace wanted =>
    cases wanted with
    | true =>
      rw [proceed, member?_tryCreate .ready rfl] at h
      simp at h
    | false => simp [proceed, finishing, Progress.member?, Outcome.member?] at h
  | fill left tally =>
    cases left with
    | zero => simp [proceed, finishing, Progress.member?, Outcome.member?] at h
    | succ left =>
      rw [proceed, member?_tryCreate .ready rfl] at h
      simp at h
  | drain left tally =>
    cases left <;>
      simp [proceed, finishing, continuing, Progress.member?, Outcome.member?, held?] at h
  | renew left tally =>
    cases left <;> simp [proceed, continuing, Progress.member?, held?] at h
  | ask m₀ command =>
    obtain rfl : m₀ = m := by
      simp only [proceed] at h
      split at h <;>
        simpa [finishing, continuing, Progress.member?, Outcome.member?, held?] using h
    exact Or.inr (Or.inl ⟨command, rfl⟩)
  | leave m₀ =>
    simp only [proceed, continuing, Progress.member?, held?, Option.some.injEq] at h
    exact Or.inr (Or.inr ⟨m₀, rfl, h.symm⟩)
  | _ => simp [proceed, continuing, Progress.member?, held?] at h

/-- Whoever is in hands after a step was so before, and is not more valid now, or was idle. -/
def Handed (l : Ledger) (t : Task) (m : Member) : Prop :=
  (∃ m₀, t.held? = some m₀ ∧ m₀.id = m.id ∧ (m₀.valid = false → m.valid = false)) ∨
    m.id ∈ l.idle.map (·.id)

theorem handed_of_held? (h : t.held? = some m) : Handed l t m := Or.inl ⟨m, h, rfl, id⟩

theorem handed_proceed (h : (proceed s now isOpen l errand).progress.member? = some m) :
    Handed l ⟨errand, .ready⟩ m := by
  rcases member?_proceed h with ⟨deadline, l', rfl, htake⟩ | ⟨command, rfl⟩ | ⟨m₀, rfl, rfl⟩
  · obtain ⟨m₀, rest, hidle, hid, -⟩ := Ledger.take_eq_ready htake
    exact Or.inr (by simp [hidle, hid])
  · exact handed_of_held? rfl
  · exact Or.inl ⟨m₀, rfl, rfl, fun _ => rfl⟩

theorem valid_noted (r : Except ExchangeError Reply) (h : m.valid = false) :
    (noted m r).valid = false := by
  cases r with
  | ok reply => exact h
  | error e => cases he : e.isFatal <;> simp [noted, he, h]

theorem handed_step (hstep : t.step s now isOpen l signal = some st)
    (h : st.progress.member? = some m) : Handed l t m := by
  cases stepped hstep with
  | proceed errand => exact handed_proceed h
  | create errand c c' => exact handed_of_held? h
  | settle errand result =>
    cases result with
    | error e =>
      rw [settle, member?_created] at h
      simp at h
    | ok m₀ =>
      simp only [settle] at h
      split at h
      · exact handed_of_held? h
      · rw [member?_created] at h
        simp at h
  | close errand m₀ limit => exact handed_of_held? h
  | discard errand m₀ =>
    rw [member?_discarded] at h
    simp at h
  | closed errand m₀ limit success =>
    rw [member?_discarded] at h
    simp at h
  | wake errand limit => exact handed_of_held? h
  | answer m₀ command r =>
    obtain rfl : noted m₀ r = m := by
      simpa [finishing, Progress.member?, Outcome.member?] using h
    exact Or.inl ⟨m₀, rfl, (id_noted m₀ r).symm, valid_noted r⟩
  | leave m₀ r =>
    obtain rfl : m₀ = m := by simpa [finishing, Progress.member?, Outcome.member?] using h
    exact handed_of_held? rfl

/-- A fatal answer leaves a member invalid, unless it was revoked before the request was made. -/
theorem invalid_or_revoked_of_answered {e : ExchangeError}
    (hstep : t.step s now isOpen l signal = some st)
    (h : st.progress = .finished (.answered m (.error e))) (hfatal : e.isFatal = true) :
    m.valid = false ∨ m.id ∈ l.revoked := by
  have hmember : st.progress.member? = some m := by rw [h]; rfl
  cases stepped hstep with
  | proceed errand =>
    right
    rcases member?_proceed hmember with ⟨deadline, l', rfl, htake⟩ | ⟨command, rfl⟩ | ⟨m₀, rfl, rfl⟩
    · simp [proceed, htake, finishing] at h
    · simp only [proceed] at h
      split at h
      · next hrevoked => simpa using hrevoked
      · simp [continuing] at h
    · simp [proceed, continuing] at h
  | create errand c c' => simp [continuing] at h
  | settle errand result =>
    cases result with
    | error e' =>
      rw [settle, member?_created] at hmember
      simp at hmember
    | ok m₀ =>
      simp only [settle] at h hmember
      split at h
      · simp [continuing] at h
      · next hpublish =>
        rw [hpublish, member?_created] at hmember
        simp at hmember
  | close errand m₀ limit => simp [continuing] at h
  | discard errand m₀ =>
    rw [member?_discarded] at hmember
    simp at hmember
  | closed errand m₀ limit success =>
    rw [member?_discarded] at hmember
    simp at hmember
  | wake errand limit => simp [continuing] at h
  | answer m₀ command r =>
    left
    simp only [finishing, Progress.finished.injEq, Outcome.answered.injEq] at h
    obtain ⟨rfl, rfl⟩ := h
    simp [noted, hfatal]
  | leave m₀ r => simp [finishing] at h

/-- Whoever is idle after a step was so before, or its creation has ended, or it was given back fit
to be handed out. -/
def Queued (s : Settings) (l : Ledger) (t : Task) (id : MemberId) : Prop :=
  id ∈ l.idle.map (·.id) ∨ id ∈ t.share.arriving ∨
    ∃ m, t.held? = some m ∧ m.id = id ∧ m.valid = true ∧ id ∈ l.known ∧ s.pooling = true

theorem idle_tryCreate : (tryCreate s now l errand).ledger.idle = l.idle := by
  unfold tryCreate
  split
  · next hreserve =>
    obtain ⟨-, -, rfl⟩ := Ledger.reserve_eq_some hreserve
    rfl
  · rw [ledger_created]

theorem idle_abandon (l : Ledger) (t : Task) : (t.abandon l).1.idle = l.idle := by
  unfold abandon
  split
  · rfl
  · split <;> rfl

theorem queued_of_idle_eq (hidle : st.ledger.idle = l.idle)
    (h : id ∈ st.ledger.idle.map (·.id)) : Queued s l t id :=
  Or.inl (hidle ▸ h)

theorem queued_proceed (h : id ∈ (proceed s now isOpen l errand).ledger.idle.map (·.id)) :
    Queued s l ⟨errand, .ready⟩ id := by
  cases errand with
  | acquire deadline =>
    refine Or.inl ?_
    rcases l.take_cases isOpen with htake | htake | ⟨m₀, rest, hidle, htake | htake⟩
    · simpa [proceed, htake] using h
    · simp only [proceed, htake] at h
      split at h <;> exact h
    · simp only [proceed, htake, ledger_finishing] at h
      rw [hidle]
      exact List.mem_cons_of_mem _ h
    · simp only [proceed, htake, ledger_continuing, Ledger.forget] at h
      rw [hidle]
      exact List.mem_cons_of_mem _ h
  | grow deadline => exact queued_of_idle_eq idle_tryCreate h
  | release m =>
    rcases l.giveBack_cases s isOpen m with ⟨hknown, hback⟩ | ⟨replace, hback⟩
    · simp only [proceed, hback, ledger_finishing, List.map_append, List.map_cons, List.map_nil,
        List.mem_append, List.mem_singleton] at h
      rcases h with h | rfl
      · exact Or.inl h
      · obtain ⟨hpooling, hvalid⟩ := Ledger.valid_of_kept hback
        exact Or.inr (Or.inr ⟨m, rfl, rfl, hvalid, hknown, hpooling⟩)
    · simp only [proceed, hback, ledger_continuing, Ledger.forget] at h
      exact Or.inl h
  | replace wanted =>
    cases wanted with
    | true => exact queued_of_idle_eq idle_tryCreate h
    | false => exact Or.inl h
  | fill left tally =>
    cases left with
    | zero => exact Or.inl h
    | succ left => exact queued_of_idle_eq idle_tryCreate h
  | stop => simp [proceed, Ledger.stop] at h
  | drain left tally => cases left <;> exact Or.inl h
  | restart => simp [proceed, Ledger.flush_eq_strike, Ledger.strike] at h
  | renew left tally => cases left <;> exact Or.inl h
  | ask m command =>
    simp only [proceed] at h
    split at h <;> exact Or.inl h
  | _ => exact Or.inl h

theorem queued_settle {result : Except ExchangeError Member}
    (h : id ∈ (settle s now l errand result).ledger.idle.map (·.id)) :
    Queued s l ⟨errand, .creating (.ended result)⟩ id := by
  cases result with
  | error e =>
    rw [settle, ledger_created] at h
    exact Or.inl h
  | ok m =>
    cases hpublish : l.settle.publish m with
    | none =>
      simp only [settle, hpublish, ledger_continuing] at h
      exact Or.inl h
    | some l' =>
      simp only [settle, hpublish, ledger_created] at h
      obtain rfl := Ledger.publish_eq_some hpublish
      simp only [List.map_append, List.mem_append, List.map_cons, List.map_nil,
        List.mem_singleton] at h
      rcases h with h | rfl
      · exact Or.inl h
      · exact Or.inr (Or.inl (by simp [share, Doing.share, Creation.share, Share.arrival]))

theorem queued_step (hstep : t.step s now isOpen l signal = some st)
    (h : id ∈ st.ledger.idle.map (·.id)) : Queued s l t id := by
  cases stepped hstep with
  | proceed errand => exact queued_proceed h
  | settle errand result => exact queued_settle h
  | discard errand m =>
    rw [ledger_discarded] at h
    exact Or.inl h
  | closed errand m limit success =>
    rw [ledger_discarded] at h
    exact Or.inl h
  | _ => exact Or.inl h

end Task

namespace World

variable {s : Settings} {w w' : World} {id : MemberId} {m : Member}

/-- The members in callers' hands, also while a task has them on loan. -/
def bearers (w : World) : List Member := w.held ++ w.tasks.filterMap (·.2.held?)

theorem map_id_bearers (w : World) : w.bearers.map (·.id) = w.handed := by
  rw [bearers, handed, List.map_append, List.map_filterMap]

theorem mem_handed_of_bearers (h : m ∈ w.bearers) : m.id ∈ w.handed := by
  rw [← map_id_bearers]
  exact List.mem_map_of_mem h

theorem mem_bearers_of_task? {t : TaskId} {task : Task} (htask : w.task? t = some task)
    (hm : task.held? = some m) : m ∈ w.bearers := by
  obtain ⟨before, rest, hsplit, -⟩ := List.lookup_eq_some_iff.mp htask
  refine List.mem_append_right _ (List.mem_filterMap.mpr ⟨(t, task), ?_, hm⟩)
  simp [hsplit]

theorem Sound.eq_of_bearers (h : w.Sound) {m' : Member} (hm : m ∈ w.bearers)
    (hm' : m' ∈ w.bearers) (hid : m.id = m'.id) : m = m' := by
  have hnodup : (w.bearers.map (·.id)).Nodup := by
    rw [map_id_bearers]
    have hhands := h.balanced.placed.hands_nodup
    rw [hands_share] at hhands
    exact Multiset.coe_nodup.mp hhands
  exact List.inj_on_of_nodup_map hnodup hm hm' hid

/-- Whoever is in hands was so before, if it is said where those are who were not. -/
theorem mem_bearers_cases {P : Member → Prop} (hheld : ∀ m ∈ w'.held, m ∈ w.held ∨ P m)
    (htasks : ∀ p ∈ w'.tasks, p ∈ w.tasks ∨ ∀ m, p.2.held? = some m → P m)
    (h : m ∈ w'.bearers) : m ∈ w.bearers ∨ P m := by
  rcases List.mem_append.mp h with hm | hm
  · exact (hheld m hm).imp_left (List.mem_append_left _)
  · obtain ⟨p, hp, hm⟩ := List.mem_filterMap.mp hm
    rcases htasks p hp with hp | hnew
    · exact Or.inl (List.mem_append_right _ (List.mem_filterMap.mpr ⟨p, hp, hm⟩))
    · exact Or.inr (hnew m hm)

theorem mem_held_finish {t : TaskId} {o : Outcome} :
    m ∈ (w.finish t o).held ↔ m ∈ w.held ∨ o.member? = some m := by
  cases o <;> simp [finish, without, Outcome.member?, eq_comm]

theorem mem_bearers_after {t : TaskId} {signal : Signal} {step : Step}
    (h : m ∈ (w.after t signal step).bearers) :
    m ∈ w.bearers ∨ step.progress.member? = some m := by
  obtain ⟨ledger, ring, progress⟩ := step
  refine mem_bearers_cases (P := fun m => progress.member? = some m) ?_ ?_ h
  · intro m hm
    cases progress with
    | running next =>
      have hheld : (w.after t signal ⟨ledger, ring, .running next⟩).held = w.held :=
        (puts_put _ t next).held_eq
      exact Or.inl (hheld ▸ hm)
    | finished o =>
      rw [after, mem_held_finish] at hm
      exact hm
  · intro p hp
    cases progress with
    | running next =>
      obtain ⟨next', htasks, hnext⟩ := exists_tasks_put { w with
        ledger := ledger
        lines := w.linesAfter signal
        bell := (w.bell.leave t).ring ring } t next
      rw [after, htasks] at hp
      obtain ⟨q, hq, rfl⟩ := List.mem_map.mp hp
      split
      · right
        rcases hnext with rfl | ⟨-, rfl⟩ <;> exact fun m hm => hm
      · exact Or.inl hq
    | finished o =>
      rw [after, tasks_finish] at hp
      exact Or.inl (List.mem_of_mem_filter hp)

theorem mem_held_of_holding? (h : w.holding? id = some m) : m ∈ w.held := List.mem_of_find?_eq_some h

theorem arriving_le_share {t : TaskId} {task : Task} (hw : w.Orderly)
    (htask : w.task? t = some task) (h : id ∈ task.share.arriving) : id ∈ w.share.arriving := by
  rw [share_without hw htask, Share.arriving_add, Multiset.mem_add]
  exact Or.inr h

/-- Whoever is in hands after an action was so before, and is not more valid now, or was idle. -/
theorem bearers_act {a : Action} (hact : w.act s a = some w') (hm : m ∈ w'.bearers) :
    (∃ m₀ ∈ w.bearers, m₀.id = m.id ∧ (m₀.valid = false → m.valid = false)) ∨
      m.id ∈ w.ledger.idle.map (·.id) := by
  have hsame (h : m ∈ w.bearers) :
      (∃ m₀ ∈ w.bearers, m₀.id = m.id ∧ (m₀.valid = false → m.valid = false)) ∨
        m.id ∈ w.ledger.idle.map (·.id) := Or.inl ⟨m, h, rfl, id⟩
  cases acted hact with
  | begin t call hfresh =>
    refine hsame ((mem_bearers_cases (P := fun _ => False) ?_ ?_ hm).resolve_right not_false)
    · exact fun m hm => Or.inl hm
    · intro p hp
      refine (List.mem_append.mp hp).imp_right fun hp m hm => ?_
      obtain rfl := List.mem_singleton.mp hp
      cases call <;> simp [errand, Task.held?] at hm
  | use t id use m₀ hfresh hm₀ =>
    have hcases : m ∈ w.bearers ∨ m = m₀ := by
      refine mem_bearers_cases (P := (· = m₀)) ?_ ?_ hm
      · exact fun m hm => Or.inl (List.mem_of_mem_filter hm)
      · intro p hp
        refine (List.mem_append.mp hp).imp_right fun hp m hm => ?_
        obtain rfl := List.mem_singleton.mp hp
        cases use <;> simpa [Use.errand, Task.held?, eq_comm] using hm
    rcases hcases with hm | rfl
    · exact hsame hm
    · exact hsame (List.mem_append_left _ (mem_held_of_holding? hm₀))
  | advance t signal task step htask hadmits hstep =>
    rcases mem_bearers_after hm with hm | hm
    · exact hsame hm
    · refine (Task.handed_step hstep hm).imp_left ?_
      rintro ⟨m₀, hheld, hid, hvalid⟩
      exact ⟨m₀, mem_bearers_of_task? htask hheld, hid, hvalid⟩
  | abandon t task htask =>
    have hcases : m ∈ w.bearers ∨ task.lent? = some m := by
      refine mem_bearers_cases (P := fun m => task.lent? = some m) ?_ ?_ hm
      · exact fun m hm => by simpa using hm
      · exact fun p hp => Or.inl (List.mem_of_mem_filter hp)
    rcases hcases with hm | hm
    · exact hsame hm
    · have hheld : task.held? = some m := by
        obtain ⟨errand, doing⟩ := task
        cases errand <;> simp_all [Task.lent?, Task.held?]
      exact hsame (mem_bearers_of_task? htask hheld)
  | letGo id m₀ hm₀ =>
    refine hsame ((mem_bearers_cases (P := fun _ => False) ?_ ?_ hm).resolve_right not_false)
    · exact fun m hm => Or.inl (List.mem_of_mem_filter hm)
    · exact fun p hp => Or.inl hp
  | invalidate id m₀ hm₀ =>
    rcases List.mem_append.mp hm with hheld | htasks
    · obtain ⟨m₁, hm₁, rfl⟩ := List.mem_map.mp hheld
      refine Or.inl ⟨m₁, List.mem_append_left _ hm₁, ?_, ?_⟩
      · split <;> rfl
      · intro hvalid
        split
        · rfl
        · exact hvalid
    · exact hsame (List.mem_append_right _ htasks)
  | die line => exact hsame hm
  | wait time htime => exact hsame hm

/-- Whoever is idle after an action was so before, or its creation has ended, or it was given back
fit to be handed out. -/
theorem idle_act {a : Action} (hw : w.Orderly) (hact : w.act s a = some w')
    (hid : id ∈ w'.ledger.idle.map (·.id)) :
    id ∈ w.ledger.idle.map (·.id) ∨ id ∈ w.share.arriving ∨
      ∃ m ∈ w.bearers, m.id = id ∧ m.valid = true ∧ id ∈ w.ledger.known ∧ s.pooling = true := by
  cases acted hact with
  | advance t signal task step htask hadmits hstep =>
    rw [ledger_after] at hid
    rcases Task.queued_step hstep hid with hidle | harriving | ⟨m, hheld, hm⟩
    · exact Or.inl hidle
    · exact Or.inr (Or.inl (arriving_le_share hw htask harriving))
    · exact Or.inr (Or.inr ⟨m, mem_bearers_of_task? htask hheld, hm⟩)
  | abandon t task htask =>
    rw [Task.idle_abandon] at hid
    exact Or.inl hid
  | _ => exact Or.inl hid

/-! ## Spent members -/

/-- A member that is not handed out any more: it is not idle, and it is given back only after the
pool has struck it out, or unfit to be kept. -/
structure Spent (s : Settings) (w : World) (id : MemberId) : Prop where
  settled : w.ledger.Settled w.share id
  notMem_idle : id ∉ w.ledger.idle.map (·.id)
  invalid_of_known : s.pooling = true → id ∈ w.ledger.known →
    ∀ m ∈ w.bearers, m.id = id → m.valid = false

theorem Spent.act {a : Action} (h : w.Spent s id) (hw : w.Sound) (hact : w.act s a = some w') :
    w'.Spent s id := by
  have hturn : Turns s w w' := .act a hact
  have hknown : id ∈ w'.ledger.known → id ∈ w.ledger.known := by
    intro hknown
    by_contra hunknown
    have hkept := hw.kept (P := fun x => x.1.Settled x.2 id ∧ id ∉ x.1.known)
      (fun hsection hx hP => ⟨hP.1.of_section hsection,
        hP.1.notMem_known_of_section hsection hx hP.2⟩) ⟨h.settled, hunknown⟩ hturn
    exact hkept.2 hknown
  constructor
  · exact hw.kept (P := fun x => x.1.Settled x.2 id) (fun hsection _ hP => hP.of_section hsection)
      h.settled hturn
  · intro hidle
    rcases idle_act hw.orderly hact hidle with hidle | harriving | ⟨m, hm, hid, hvalid, hin, hkeeps⟩
    · exact h.notMem_idle hidle
    · exact h.settled.notMem_arriving harriving
    · simp [h.invalid_of_known hkeeps hin m hm hid] at hvalid
  · intro hpooling hin m hm hid
    rcases bearers_act hact hm with ⟨m₀, hm₀, hsame, hvalid⟩ | hidle
    · exact hvalid (h.invalid_of_known hpooling (hknown hin) m₀ hm₀ (hsame.trans hid))
    · exact absurd (hid ▸ hidle) h.notMem_idle

theorem Spent.unfolds (h : w.Spent s id) (hw : w.Sound) (hlater : Unfolds s w w') :
    w'.Spent s id := by
  induction hlater with
  | refl => exact h
  | tail hsofar hturn ih =>
    cases hturn with
    | act a hact => exact ih.act (Unfolds.sound hsofar hw) hact
    | report dead => exact ⟨ih.settled, ih.notMem_idle, ih.invalid_of_known⟩

theorem Spent.not_handsOut {a : Action} (h : w.Spent s id) (hact : w.act s a = some w') :
    ¬ w.HandsOut w' id := by
  intro hout
  obtain ⟨m, l, htake, rfl⟩ := take_of_handsOut hact hout
  obtain ⟨m₀, rest, hidle, hid, -⟩ := Ledger.take_eq_ready htake
  exact h.notMem_idle (by simp [hidle, hid])

/-- Whoever is invalid in hands is spent. -/
theorem Sound.spent_of_invalid (h : w.Sound) (hm : m ∈ w.bearers) (hvalid : m.valid = false) :
    w.Spent s m.id := by
  have hhands : m.id ∈ w.share.hands := mem_hands_iff.mpr (mem_handed_of_bearers hm)
  constructor
  · exact h.balanced.placed.settled (Multiset.mem_add.mpr (Or.inr hhands))
  · exact fun hidle => h.balanced.placed.notMem_hands (Multiset.mem_coe.mpr hidle) hhands
  · intro _ _ m' hm' hid
    rw [h.eq_of_bearers hm' hm hid]
    exact hvalid

theorem Sound.spent_of_notMem_known (h : w.Sound) (hsettled : w.ledger.Settled w.share id)
    (hunknown : id ∉ w.ledger.known) : w.Spent s id where
  settled := hsettled
  notMem_idle := fun hidle =>
    hunknown ((h.balanced.listed.mem_known id).mpr (Or.inl (Multiset.mem_coe.mpr hidle)))
  invalid_of_known := fun _ hknown => absurd hknown hunknown

theorem Sound.spent_of_revoked (h : w.Sound) (hid : id ∈ w.ledger.revoked) : w.Spent s id :=
  h.spent_of_notMem_known (h.marked.settled_of_revoked id hid)
    (h.marked.notMem_known_of_revoked id hid)

/-! ## What spoils a member -/

/-- By an action from one world to the other, the member of this id is spoilt. -/
inductive Spoils (w w' : World) : Action → MemberId → Prop
  /-- A request of its holder, or a read, ends with a fatal error. -/
  | answered (t : TaskId) (signal : Signal) (m : Member) (e : ExchangeError)
      (hfatal : e.isFatal = true)
      (hfinished : w'.finished = w.finished ++ [(t, .answered m (.error e))]) :
      Spoils w w' (.advance t signal) m.id
  /-- Its holder asks its session to close. -/
  | closed (t : TaskId) (m : Member) (htask : w.task? t = some ⟨.leave m, .ready⟩) :
      Spoils w w' (.advance t .go) m.id
  | invalidated (id : MemberId) : Spoils w w' (.invalidate id) id
  | revoked (a : Action) (id : MemberId) (hrevoked : id ∈ w'.ledger.revoked) : Spoils w w' a id
  /-- It is given back when its session is not open. -/
  | returned (t : TaskId) (m : Member) (htask : w.task? t = some ⟨.release m, .ready⟩)
      (hshut : w.isOpen m.line = false) : Spoils w w' (.advance t .go) m.id

/-- An outcome that leaves a member with a caller leaves it in hands. -/
theorem finished_act {a : Action} (hact : w.act s a = some w') :
    w'.finished = w.finished ∨ ∃ t o, w'.finished = w.finished ++ [(t, o)] ∧
      ∀ m, o.member? = some m → m ∈ w'.bearers := by
  cases acted hact with
  | advance t signal task step htask hadmits hstep =>
    have hfinished := finished_after w t signal step
    obtain ⟨ledger, ring, progress⟩ := step
    cases progress with
    | running next =>
      left
      simpa [Progress.outcome?] using hfinished
    | finished o =>
      refine Or.inr ⟨t, o, hfinished, fun m hm => List.mem_append_left _ ?_⟩
      rw [after, mem_held_finish]
      exact Or.inr hm
  | _ => exact Or.inl rfl

theorem Sound.spent_of_spoils {a : Action} (h : w.Sound) (hact : w.act s a = some w')
    (hspoils : w.Spoils w' a id) : w'.Spent s id := by
  have hw' := h.turn (.act a hact)
  cases hspoils with
  | answered t signal m e hfatal hfinished =>
    obtain ⟨task, step, htask, hstep, rfl⟩ := act_advance hact
    have hprogress := progress_of_finished hfinished
    rcases Task.invalid_or_revoked_of_answered hstep hprogress hfatal with hvalid | hrevoked
    · refine hw'.spent_of_invalid (List.mem_append_left _ ?_) hvalid
      obtain ⟨ledger, ring, progress⟩ := step
      obtain rfl : progress = _ := hprogress
      rw [after, mem_held_finish]
      exact Or.inr rfl
    · exact (h.spent_of_revoked hrevoked).act h hact
  | closed t m htask =>
    rw [act_advance_go htask] at hact
    obtain rfl := Option.some.inj hact
    refine hw'.spent_of_invalid (m := { m with valid := false }) ?_ rfl
    exact mem_bearers_of_task? (task?_after_running htask .go rfl (by simp)) rfl
  | invalidated id =>
    cases acted hact with
    | invalidate id m hm =>
      have hid : m.id = id := by simpa using List.find?_some hm
      subst hid
      refine hw'.spent_of_invalid (m := { m with valid := false }) (List.mem_append_left _ ?_) rfl
      exact List.mem_map.mpr ⟨m, mem_held_of_holding? hm, if_pos rfl⟩
  | revoked a id hrevoked => exact hw'.spent_of_revoked hrevoked
  | returned t m htask hshut =>
    have hbearer : m ∈ w.bearers := mem_bearers_of_task? htask rfl
    have hsettled : w.ledger.Settled w.share m.id :=
      h.balanced.placed.settled
        (Multiset.mem_add.mpr (Or.inr (mem_hands_iff.mpr (mem_handed_of_bearers hbearer))))
    have hkept := h.kept (P := fun x => x.1.Settled x.2 m.id)
      (fun hsection _ hP => hP.of_section hsection) hsettled (.act _ hact)
    refine hw'.spent_of_notMem_known hkept ?_
    obtain ⟨replace, hback⟩ := Ledger.giveBack_of_shut (s := s) (l := w.ledger) hshut
    rw [act_advance_go htask] at hact
    obtain rfl := Option.some.inj hact
    rw [ledger_after, Task.proceed, hback]
    exact h.balanced.listed.known_nodup.not_mem_erase

/-! ## Never again -/

/-- Who was handed out, each time it was. -/
def handedOut (w : World) : List MemberId := w.finished.filterMap (·.2.acquired?)

/-- In a pool that keeps nobody, whoever was handed out is spent. -/
theorem handedOut_nodup (h : Unfolds s start w) (hpooling : s.pooling = false) :
    w.handedOut.Nodup ∧ ∀ id ∈ w.handedOut, w.Spent s id := by
  induction h with
  | refl => exact ⟨List.nodup_nil, by simp [handedOut, start]⟩
  | @tail w w' hsofar hturn ih =>
    obtain ⟨hnodup, hspent⟩ := ih
    have hw := Unfolds.sound hsofar sound_start
    cases hturn with
    | report dead =>
      refine ⟨hnodup, fun id hid => ?_⟩
      exact (hspent id hid).unfolds hw (.single (.report dead))
    | act a hact =>
      have hw' := hw.turn (.act a hact)
      have hkept : ∀ id ∈ w.handedOut, w'.Spent s id := fun id hid => (hspent id hid).act hw hact
      rcases finished_act hact with hsame | ⟨t, o, hfinished, hmember⟩
      · have hout : w'.handedOut = w.handedOut := by rw [handedOut, hsame, handedOut]
        rw [hout]
        exact ⟨hnodup, hkept⟩
      · have hout : w'.handedOut = w.handedOut ++ o.acquired?.toList := by
          rw [handedOut, hfinished, List.filterMap_append, handedOut]
          cases o <;> rfl
        rw [hout]
        cases o with
        | acquired m =>
          have hnew : m.id ∉ w.handedOut := fun hid =>
            (hspent m.id hid).not_handsOut hact ⟨t, m, hfinished, rfl⟩
          have hbearer : m.id ∈ w'.share.hands :=
            mem_hands_iff.mpr (mem_handed_of_bearers (hmember m rfl))
          refine ⟨?_, fun id hid => ?_⟩
          · rw [Outcome.acquired?, Option.toList_some, ← List.concat_eq_append]
            exact hnodup.concat hnew
          · rcases List.mem_append.mp hid with hid | hid
            · exact hkept id hid
            · obtain rfl : id = m.id := by simpa [Outcome.acquired?] using hid
              refine ⟨hw'.balanced.placed.settled (Multiset.mem_add.mpr (Or.inr hbearer)), ?_, ?_⟩
              · exact fun hidle =>
                  hw'.balanced.placed.notMem_hands (Multiset.mem_coe.mpr hidle) hbearer
              · simp [hpooling]
        | _ => simpa [Outcome.acquired?] using ⟨hnodup, hkept⟩

/-- Whatever the sessions are, a member that is spoilt is never idle again, and never handed out; and
a pool that keeps nobody hands nobody out twice. -/
theorem never_recycled (h : Unfolds s start w) :
    (∀ a spoilt id, w.act s a = some spoilt → w.Spoils spoilt a id →
      ∀ later, Unfolds s spoilt later → id ∉ later.ledger.idle.map (·.id) ∧
        ∀ b next, later.act s b = some next → ¬ later.HandsOut next id) ∧
      (s.pooling = false → w.handedOut.Nodup) := by
  have hw := Unfolds.sound h sound_start
  constructor
  · intro a spoilt id hact hspoils later hlater
    have hspent : spoilt.Spent s id := hw.spent_of_spoils hact hspoils
    have hlast := hspent.unfolds (hw.turn (.act a hact)) hlater
    exact ⟨hlast.notMem_idle, fun b next hnext => hlast.not_handsOut hnext⟩
  · exact fun hpooling => (handedOut_nodup h hpooling).1

/-- The holder of `recalled` has found its member unfit and has given it back, its successor is about
to be handed out, and all sessions say that they are open. -/
def replaced : World where
  now := 0
  ledger := ⟨[⟨⟨2⟩, ⟨2⟩, false, true⟩], [⟨2⟩], [], [], 0, false, 2, [⟨1⟩], ⟨3⟩⟩
  bell := ⟨true, [], [], []⟩
  tasks := [(⟨3⟩, ⟨.restart, .ready⟩), (⟨5⟩, ⟨.acquire 30000, .ready⟩)]
  finished := [(⟨1⟩, .tallied ⟨1, 0⟩), (⟨2⟩, .acquired ⟨⟨1⟩, ⟨1⟩, true, true⟩), (⟨4⟩, .released)]
  held := []
  lines := [⟨2⟩, ⟨1⟩]
  dead := []
  asked := [.connect, .close ⟨1⟩, .connect]

/-- A member is acquired, given back and closed, and another one is acquired. -/
def twice : List Action :=
  [.begin ⟨1⟩ .acquire, .advance ⟨1⟩ .go, .advance ⟨1⟩ .go, .advance ⟨1⟩ (.connected ⟨1⟩),
    .advance ⟨1⟩ .go, .advance ⟨1⟩ .go, .use ⟨2⟩ ⟨1⟩ .release, .advance ⟨2⟩ .go, .advance ⟨2⟩ .go,
    .advance ⟨2⟩ (.closed (.ok ())), .advance ⟨2⟩ .go, .begin ⟨3⟩ .acquire, .advance ⟨3⟩ .go,
    .advance ⟨3⟩ .go, .advance ⟨3⟩ (.connected ⟨2⟩), .advance ⟨3⟩ .go, .advance ⟨3⟩ .go]

/-- The successor is handed out, and the member that was found unfit is not; a pool that keeps nobody
has handed out two members. -/
theorem never_recycled_recalled : (∃ spoilt next : World,
    recalled.act twoPlaces (.invalidate ⟨1⟩) = some spoilt ∧ Unfolds twoPlaces spoilt replaced ∧
      replaced.act twoPlaces (.advance ⟨5⟩ .go) = some next ∧ replaced.HandsOut next ⟨2⟩ ∧
        ¬ replaced.HandsOut next ⟨1⟩ ∧ ⟨1⟩ ∉ replaced.ledger.idle.map (·.id)) ∧
      ∃ last, run { twoPlaces with pooling := false } start twice = some last ∧
        last.handedOut = [⟨1⟩, ⟨2⟩] ∧ last.handedOut.Nodup := by
  obtain ⟨actions, hrun⟩ := reachable_recalled
  have hspoilt : recalled.act twoPlaces (.invalidate ⟨1⟩) =
      some { recalled with held := [⟨⟨1⟩, ⟨1⟩, true, false⟩] } := rfl
  have hreplaced : run twoPlaces { recalled with held := [⟨⟨1⟩, ⟨1⟩, true, false⟩] }
      [.use ⟨4⟩ ⟨1⟩ .release, .advance ⟨4⟩ .go, .advance ⟨4⟩ .go, .advance ⟨4⟩ (.closed (.ok ())),
        .advance ⟨4⟩ .go, .advance ⟨4⟩ (.connected ⟨2⟩), .advance ⟨4⟩ .go, .begin ⟨5⟩ .acquire] =
        some { replaced with dead := [⟨1⟩] } := rfl
  have hlater : Unfolds twoPlaces { recalled with held := [⟨⟨1⟩, ⟨1⟩, true, false⟩] } replaced :=
    (unfolds_of_run hreplaced).tail (.report [])
  have hnext : replaced.act twoPlaces (.advance ⟨5⟩ .go) =
      some (replaced.after ⟨5⟩ .go (Task.proceed _ _ replaced.isOpen replaced.ledger
        (.acquire 30000))) := rfl
  have hnever := (never_recycled (unfolds_of_run hrun)).1 _ _ ⟨1⟩ hspoilt (.invalidated ⟨1⟩) _ hlater
  refine ⟨⟨_, _, hspoilt, hlater, hnext, ⟨⟨5⟩, _, rfl, rfl⟩, hnever.2 _ _ hnext, hnever.1⟩, ?_⟩
  refine ⟨_, rfl, rfl, ?_⟩
  have htwice : run { twoPlaces with pooling := false } start twice = some _ := rfl
  exact (never_recycled (unfolds_of_run htwice)).2 rfl

end World

end FaxClient.Pool
