import FaxClient.Proofs.Pool.Revocation

/-!
# A stop drains the pool

While a pool is stopped its ledger lists nobody: whoever is created for it is turned away, and
whoever comes back is closed.  The ledger stays stopped until a start or a restart runs.

The members that a stop finds in callers' hands are cut off from then on, also when the pool is
started again: what their holders ask is refused and does not reach a session, and when they come
back they are closed, and nobody takes their place.
-/

namespace FaxClient.Pool

namespace Ledger

variable {s : Settings} {l : Ledger} {x y : Ledger × Share}

/-- The ledger lists nobody; there may still be places held for creations. -/
structure Drained (l : Ledger) : Prop where
  idle_eq : l.idle = []
  known_eq : l.known = []
  working_eq : l.working = []
  flagged_eq : l.flagged = []

theorem Drained.forget (h : l.Drained) (id : MemberId) : (l.forget id).Drained :=
  ⟨h.idle_eq, by simp [Ledger.forget, h.known_eq], by simp [Ledger.forget, h.working_eq],
    by simp [Ledger.forget, h.flagged_eq]⟩

theorem not_stopped_of_publish {l' : Ledger} {m : Member} (h : l.publish m = some l') :
    l'.stopped = false := by
  have hstopped : l.stopped = false := by
    by_contra hstopped
    simp [publish, hstopped] at h
  rw [publish_eq_some h]
  exact hstopped

theorem stopped_flush (l : Ledger) : l.flush.2.stopped = false := by rw [flush_eq_strike]; rfl

theorem Drained.of_section (hsection : Section s x y) (hx : x.1.stopped = true → x.1.Drained)
    (hy : y.1.stopped = true) : y.1.Drained := by
  cases hsection with
  | reserve F hreserve =>
    obtain ⟨-, -, rfl⟩ := reserve_eq_some hreserve
    obtain ⟨hidle, hknown, hworking, hflagged⟩ := hx hy
    exact ⟨hidle, hknown, hworking, hflagged⟩
  | settle l F =>
    obtain ⟨hidle, hknown, hworking, hflagged⟩ := hx hy
    exact ⟨hidle, hknown, hworking, hflagged⟩
  | publish F hpublish => simp [not_stopped_of_publish hpublish] at hy
  | checkOut F htake =>
    obtain ⟨m₀, rest, hidle, -, rfl⟩ := take_eq_ready htake
    exact absurd (hidle.symm.trans (hx hy).idle_eq) (List.cons_ne_nil m₀ rest)
  | evict F htake =>
    obtain ⟨rest, hidle, rfl⟩ := take_eq_stale htake
    exact absurd (hidle.symm.trans (hx hy).idle_eq) (List.cons_ne_nil _ rest)
  | keep F hback =>
    obtain ⟨hknown, rfl⟩ := giveBack_eq_kept hback
    have hempty := (hx hy).known_eq
    exact absurd hknown (hempty ▸ List.not_mem_nil)
  | doom F hback =>
    obtain ⟨-, rfl⟩ := giveBack_eq_doomed hback
    exact (hx hy).forget _
  | reopen l F => simp [reopen] at hy
  | stop l F => exact ⟨rfl, rfl, rfl, rfl⟩
  | flush l F => simp [stopped_flush] at hy
  | abandon l F id =>
    obtain ⟨hidle, hknown, hworking, hflagged⟩ := (hx hy).forget id
    exact ⟨hidle, hknown, hworking, hflagged⟩
  | turnAway F id => exact hx hy
  | revoke l F id =>
    obtain ⟨hidle, hknown, hworking, hflagged⟩ := hx hy
    exact ⟨hidle, hknown, hworking, hflagged⟩
  | lose l F hG => exact hx hy

theorem stopped_of_giveBack {isOpen : Line → Bool} {m : Member} {returned : Returned} {l' : Ledger}
    (h : l.giveBack s isOpen m = (returned, l')) : l'.stopped = l.stopped := by
  rcases l.giveBack_cases s isOpen m with ⟨-, hcase⟩ | ⟨replace, hcase⟩ <;>
    (rw [hcase] at h; obtain ⟨-, rfl⟩ := Prod.mk.inj h; rfl)

theorem giveBack_of_notMem_known {isOpen : Line → Bool} {m : Member} (h : m.id ∉ l.known) :
    l.giveBack s isOpen m = (.doomed { m with working := false } false, l.forget m.id) := by
  simp [giveBack, h, forget]

end Ledger

/-! ## Until a start or a restart runs -/

/-- Whether an errand opens a stopped pool again. -/
def Errand.reopens : Errand → Bool
  | .start | .restart => true
  | _ => false

namespace Task

variable {s : Settings} {now : Time} {l : Ledger} {errand : Errand} {isOpen : Line → Bool}

@[simp] theorem ledger_continuing (doing : Doing) (ring : Ring) :
    (continuing l errand doing ring).ledger = l := rfl

@[simp] theorem ledger_finishing (o : Outcome) (ring : Ring) :
    (finishing l o ring).ledger = l := rfl

@[simp] theorem ledger_created (added : Bool) : (created s now l errand added).ledger = l := by
  unfold created
  split <;> rfl

@[simp] theorem ledger_discarded (success : Bool) :
    (discarded s now l errand success).ledger = l := by
  unfold discarded
  split
  · rfl
  · rfl
  · rfl
  · rfl
  · exact ledger_created false

theorem stopped_tryCreate : (tryCreate s now l errand).ledger.stopped = l.stopped := by
  unfold tryCreate
  split
  · next id l' hreserve =>
    obtain ⟨-, -, rfl⟩ := Ledger.reserve_eq_some hreserve
    rfl
  · rw [ledger_created]

theorem stopped_settle (h : l.stopped = true) (result : Except ExchangeError Member) :
    (settle s now l errand result).ledger.stopped = true := by
  cases result with
  | error e =>
    simp only [settle, ledger_created]
    exact h
  | ok m =>
    have hpublish : l.settle.publish m = none := by
      simp [Ledger.publish, Ledger.settle, h]
    simp only [settle, hpublish, ledger_continuing]
    exact h

theorem stopped_proceed (h : l.stopped = true) (herrand : errand.reopens = false) :
    (proceed s now isOpen l errand).ledger.stopped = true := by
  cases errand with
  | acquire deadline => simp [proceed, Ledger.take, h]
  | grow deadline => exact stopped_tryCreate.trans h
  | release m =>
    simp only [proceed]
    split
    · next l' hback => exact (Ledger.stopped_of_giveBack hback).trans h
    · next hback => exact (Ledger.stopped_of_giveBack hback).trans h
  | replace wanted =>
    cases wanted with
    | true => exact stopped_tryCreate.trans h
    | false => exact h
  | start => simp [Errand.reopens] at herrand
  | fill left tally =>
    cases left with
    | zero => exact h
    | succ left => exact stopped_tryCreate.trans h
  | stop => rfl
  | drain left tally => cases left <;> exact h
  | restart => simp [Errand.reopens] at herrand
  | renew left tally => cases left <;> exact h
  | ask m command =>
    simp only [proceed]
    split <;> exact h
  | leave m => exact h

theorem stopped_step {t : Task} {signal : Signal} {st : Step}
    (hstep : t.step s now isOpen l signal = some st) (h : l.stopped = true)
    (ht : t.doing = .ready → t.errand.reopens = false) : st.ledger.stopped = true := by
  cases stepped hstep with
  | proceed errand => exact stopped_proceed h (ht rfl)
  | settle errand result => exact stopped_settle h result
  | discard errand m =>
    rw [ledger_discarded]
    exact h
  | closed errand m limit success =>
    rw [ledger_discarded]
    exact h
  | _ => exact h

/-- A task that has struck a member out, and closes it, and does no more. -/
structure Parts (t : Task) : Prop where
  errand_eq : t.errand = .replace false
  not_creating : t.isCreating = false
  not_parked : ∀ limit, t.doing ≠ .parked limit

theorem Parts.step {t : Task} {signal : Signal} {st : Step} (h : t.Parts)
    (hstep : t.step s now isOpen l signal = some st) :
    st.progress = .finished .released ∨ ∃ t', st.progress = .running t' ∧ t'.Parts := by
  have hready : Parts ⟨.replace false, .ready⟩ := ⟨rfl, rfl, by simp⟩
  obtain ⟨herrand, hcreating, hparked⟩ := h
  cases stepped hstep with
  | proceed errand =>
    obtain rfl : errand = .replace false := herrand
    exact Or.inl rfl
  | create errand c c' => simp [isCreating] at hcreating
  | settle errand result => simp [isCreating] at hcreating
  | close errand m limit => exact Or.inr ⟨_, rfl, herrand, rfl, by simp⟩
  | discard errand m =>
    obtain rfl : errand = .replace false := herrand
    exact Or.inr ⟨_, rfl, hready⟩
  | closed errand m limit success =>
    obtain rfl : errand = .replace false := herrand
    exact Or.inr ⟨_, rfl, hready⟩
  | wake errand limit => exact absurd rfl (hparked limit)
  | answer m command r => simp at herrand
  | leave m r => simp at herrand

end Task

/-! ## What a stop leaves -/

namespace World

variable {s : Settings} {w w' : World} {t : TaskId} {m : Member} {id : MemberId}

theorem Reachable.drained (h : Reachable s w) (hstopped : w.ledger.stopped = true) :
    w.ledger.Drained :=
  Reachable.stable (P := fun x => x.1.stopped = true → x.1.Drained) ⟨[], rfl⟩ (by simp [start,
    Ledger.empty]) (fun hsection _ hP => Ledger.Drained.of_section hsection hP) h hstopped

/-- The next section of a start or of a restart runs. -/
def Reopens (w : World) (a : Action) : Prop :=
  ∃ t errand, a = .advance t .go ∧ w.task? t = some ⟨errand, .ready⟩ ∧ errand.reopens = true

/-- A pool that is in one world now is in the other later, and no start or restart runs
meanwhile. -/
def StaysShut (s : Settings) : World → World → Prop :=
  Relation.ReflTransGen fun w w' => ∃ a, ¬ w.Reopens a ∧ w.act s a = some w'

theorem StaysShut.later (h : StaysShut s w w') : Later s w w' := by
  induction h with
  | refl => exact .refl s w
  | tail _ hact ih =>
    obtain ⟨a, -, hact⟩ := hact
    exact ih.trans (later_of_act hact)

theorem stopped_act {a : Action} (h : w.act s a = some w') (hstopped : w.ledger.stopped = true)
    (ha : ¬ w.Reopens a) : w'.ledger.stopped = true := by
  cases acted h with
  | advance t signal task step htask hadmits hstep =>
    rw [ledger_after]
    refine Task.stopped_step hstep hstopped fun hready => ?_
    obtain ⟨errand, doing⟩ := task
    obtain rfl : doing = .ready := hready
    by_contra hreopens
    have hsignal : signal = .go := by
      by_contra hne
      simp [act_advance_of_ne_go htask hne] at h
    exact ha ⟨t, errand, by rw [hsignal], htask, by simpa using hreopens⟩
  | abandon t task htask =>
    have hkept : (task.abandon w.ledger).1.stopped = w.ledger.stopped := by
      unfold Task.abandon
      split
      · rfl
      · split <;> rfl
    exact hkept.trans hstopped
  | _ => exact hstopped

theorem StaysShut.stopped (h : StaysShut s w w') (hstopped : w.ledger.stopped = true) :
    w'.ledger.stopped = true := by
  induction h with
  | refl => exact hstopped
  | tail _ hact ih =>
    obtain ⟨a, ha, hact⟩ := hact
    exact stopped_act hact ih ha

theorem act_ask_of_revoked {command : Option Command}
    (htask : w.task? t = some ⟨.ask m command, .ready⟩) (hrevoked : m.id ∈ w.ledger.revoked) :
    ∃ w', w.act s (.advance t .go) = some w' ∧
      w'.finished = w.finished ++ [(t, .answered m (.error .revoked))] ∧ w'.asked = w.asked ∧
        w'.ledger = w.ledger := by
  have hproceed : Task.proceed s w.now w.isOpen w.ledger (.ask m command) =
      Task.finishing w.ledger (.answered m (.error .revoked)) .none := by
    simp [Task.proceed, hrevoked]
  refine ⟨_, act_advance_go htask, ?_, ?_, ?_⟩
  · rw [hproceed]
    rfl
  · rw [hproceed]
    rfl
  · rw [hproceed]
    rfl

/-- Whatever else happens, the task is not creating a member as long as it lasts. -/
def NeverCreates (s : Settings) (w : World) (t : TaskId) : Prop :=
  ∀ actions later task, (∀ a ∈ actions, a.launches? ≠ some t) → run s w actions = some later →
    later.task? t = some task → task.isCreating = false

theorem neverCreates_of_parts (h : ∀ task, w.task? t = some task → task.Parts) :
    NeverCreates s w t := by
  intro actions
  induction actions generalizing w with
  | nil =>
    intro later task _ hrun htask
    obtain rfl := Option.some.inj hrun
    exact (h task htask).not_creating
  | cons a actions ih =>
    intro later task hlaunch hrun htask
    obtain ⟨next, hact, hrest⟩ := Option.bind_eq_some_iff.mp hrun
    refine ih ?_ later task (fun b hb => hlaunch b (List.mem_cons_of_mem a hb)) hrest htask
    intro task' htask'
    -- The task takes a step, or something else happens, which at most abandons it.
    by_cases hadvance : ∃ signal, a = .advance t signal
    · obtain ⟨signal, rfl⟩ := hadvance
      obtain ⟨old, step, hold, hstep, rfl⟩ := act_advance hact
      rcases (h old hold).step hstep with hfinished | ⟨t', hrunning, hparts⟩
      · simp [task?_after_finished w t signal hfinished] at htask'
      · rw [task?_after_running hold signal hrunning hparts.not_parked] at htask'
        exact Option.some.inj htask' ▸ hparts
    · rcases task?_act hact (hlaunch a List.mem_cons_self) (fun signal ha => hadvance ⟨signal, ha⟩)
        with hsame | hnone
      · exact h task' (hsame ▸ htask')
      · simp [hnone] at htask'

theorem act_release_of_notMem_known (htask : w.task? t = some ⟨.release m, .ready⟩)
    (hunknown : m.id ∉ w.ledger.known) :
    ∃ w', w.act s (.advance t .go) = some w' ∧ w'.ledger.idle = w.ledger.idle ∧
      NeverCreates s w' t := by
  have hproceed : Task.proceed s w.now w.isOpen w.ledger (.release m) =
      Task.continuing (w.ledger.forget m.id) (.replace false)
        (.discarding { m with working := false }) .none := by
    simp only [Task.proceed, Ledger.giveBack_of_notMem_known hunknown]
  refine ⟨_, act_advance_go htask, ?_, neverCreates_of_parts fun task htask' => ?_⟩
  · rw [ledger_after, hproceed]
    rfl
  · rw [hproceed, task?_after_running htask .go rfl (by simp)] at htask'
    exact Option.some.inj htask' ▸ ⟨rfl, rfl, by simp⟩

/-- What is left of a member to its holder: what the holder asks is refused at once and reaches no
session, and when the member is given back, it is closed, and none is created for it. -/
structure CutOff (s : Settings) (w : World) (id : MemberId) : Prop where
  revoked : id ∈ w.ledger.revoked
  notMem_idle : id ∉ w.ledger.idle.map (·.id)
  refuses : ∀ t m command, m.id = id → w.task? t = some ⟨.ask m command, .ready⟩ →
    (∃ w', w.act s (.advance t .go) = some w' ∧
      w'.finished = w.finished ++ [(t, .answered m (.error .revoked))] ∧ w'.asked = w.asked ∧
        w'.ledger = w.ledger) ∧
      ∀ signal, signal ≠ .go → w.act s (.advance t signal) = none
  discards : ∀ t m, m.id = id → w.task? t = some ⟨.release m, .ready⟩ →
    ∃ w', w.act s (.advance t .go) = some w' ∧ w'.ledger.idle = w.ledger.idle ∧
      NeverCreates s w' t

theorem Reachable.cutOff (h : Reachable s w) (hrevoked : id ∈ w.ledger.revoked) :
    CutOff s w id := by
  have hunknown := h.marked.notMem_known_of_revoked id hrevoked
  refine ⟨hrevoked, fun hidle => hunknown ?_, ?_, ?_⟩
  · exact (h.balanced.listed.mem_known id).mpr (Or.inl (Multiset.mem_coe.mpr hidle))
  · rintro t m command rfl htask
    exact ⟨act_ask_of_revoked htask hrevoked, fun signal hsignal =>
      act_advance_of_ne_go htask hsignal⟩
  · rintro t m rfl htask
    exact act_release_of_notMem_known htask hunknown

/-- A stopped pool lists nobody until a start or a restart runs; a member in a caller's hands is
revoked exactly if the pool does not know it; and whoever was in a caller's hands when the pool was
stopped is cut off for good. -/
theorem Reachable.hard_drain (h : Reachable s w) :
    (w.ledger.stopped = true → w.ledger.Drained ∧ ∀ later, StaysShut s w later →
      later.ledger.stopped = true ∧ later.ledger.Drained) ∧
      (∀ id ∈ w.handed, id ∈ w.ledger.revoked ↔ id ∉ w.ledger.known) ∧
        ∀ t stopped, w.task? t = some ⟨.stop, .ready⟩ →
          w.act s (.advance t .go) = some stopped → stopped.ledger.stopped = true ∧
            ∀ later, Later s stopped later → ∀ id ∈ w.handed, CutOff s later id := by
  refine ⟨fun hstopped => ⟨h.drained hstopped, fun later hshut => ?_⟩,
    fun id hid => h.mem_revoked_iff hid, ?_⟩
  · have hstopped' := hshut.stopped hstopped
    exact ⟨hstopped', (h.later hshut.later).drained hstopped'⟩
  · intro t stopped htask hact
    have hledger : stopped.ledger = w.ledger.stop.2.2 := by
      rw [act_advance_go htask] at hact
      obtain rfl := Option.some.inj hact
      rw [ledger_after]
      rfl
    refine ⟨by rw [hledger]; rfl, fun later hlater id hid => ?_⟩
    have hrevoked : id ∈ stopped.ledger.revoked := by
      rw [hledger]
      exact h.balanced.mem_stop_revoked h.marked (mem_hands_iff.mpr hid)
    have hreachable := h.later (later_of_act hact)
    exact (hreachable.later hlater).cutOff (hreachable.mem_revoked_later hrevoked hlater)

/-- A member is in a caller's hands when a stop is called for. -/
def halting : World := { recalled with tasks := [(⟨3⟩, ⟨.stop, .ready⟩)] }

theorem reachable_halting : Reachable twoPlaces halting := by
  refine ⟨[.begin ⟨1⟩ .start, .advance ⟨1⟩ .go, .advance ⟨1⟩ .go, .advance ⟨1⟩ (.connected ⟨1⟩),
    .advance ⟨1⟩ .go, .advance ⟨1⟩ .go, .begin ⟨2⟩ .acquire, .advance ⟨2⟩ .go,
    .begin ⟨3⟩ .stop], ?_⟩
  rfl

/-- The pool was stopped and started again, and the caller is about to ask the member something. -/
def reopened : World :=
  { halting with
    ledger := ⟨[⟨⟨2⟩, ⟨2⟩, false, true⟩], [⟨2⟩], [], [], 0, false, 2, [⟨1⟩], ⟨3⟩⟩
    tasks := [(⟨3⟩, ⟨.drain [] ⟨1, 0⟩, .ready⟩), (⟨4⟩, ⟨.fill 0 ⟨1, 0⟩, .ready⟩),
      (⟨5⟩, ⟨.ask ⟨⟨1⟩, ⟨1⟩, true, true⟩ (some ⟨"NOOP", none⟩), .ready⟩)]
    held := []
    lines := [⟨2⟩, ⟨1⟩]
    asked := [.connect, .connect] }

/-- The member that the stop found in the caller's hands stays cut off when the pool is open again,
and what its holder asks is refused. -/
theorem hard_drain_halting : ∃ stopped refused : World,
    halting.act twoPlaces (.advance ⟨3⟩ .go) = some stopped ∧ stopped.ledger.stopped = true ∧
      Later twoPlaces stopped reopened ∧ reopened.ledger.stopped = false ∧
        CutOff twoPlaces reopened ⟨1⟩ ∧
          reopened.act twoPlaces (.advance ⟨5⟩ .go) = some refused ∧
            refused.asked = [.connect, .connect] := by
  have hstop : halting.act twoPlaces (.advance ⟨3⟩ .go) = some (halting.after ⟨3⟩ .go
      (Task.proceed twoPlaces halting.now halting.isOpen halting.ledger .stop)) := rfl
  have hlater : Later twoPlaces (halting.after ⟨3⟩ .go
      (Task.proceed twoPlaces halting.now halting.isOpen halting.ledger .stop)) reopened :=
    ⟨[.begin ⟨4⟩ .start, .advance ⟨4⟩ .go, .advance ⟨4⟩ .go, .advance ⟨4⟩ (.connected ⟨2⟩),
      .advance ⟨4⟩ .go, .use ⟨5⟩ ⟨1⟩ (.ask (some ⟨"NOOP", none⟩))], rfl⟩
  obtain ⟨-, -, hcut⟩ := Reachable.hard_drain reachable_halting
  obtain ⟨hstopped, hcut⟩ := hcut ⟨3⟩ _ rfl hstop
  have hcutOff := hcut reopened hlater ⟨1⟩ (by decide)
  obtain ⟨⟨refused, hact, -, hasked, -⟩, -⟩ := hcutOff.refuses ⟨5⟩ _ _ rfl rfl
  exact ⟨_, refused, hstop, hstopped, hlater, rfl, hcutOff, hact, hasked⟩

end World

end FaxClient.Pool
