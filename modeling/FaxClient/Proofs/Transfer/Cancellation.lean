import FaxClient.Proofs.Transfer.Delivery
import FaxClient.Proofs.Transfer.Stopping

/-!
# Cancelling a transfer

A transfer may be cancelled at any moment and any number of times: before it starts, while it waits
for the connection, on any event, and in the course of any operation.  From then on it begins no
operation; the one in progress is given up or completes, and the transfer comes to its end.
-/

namespace FaxClient.Transfer

/-! ## Nothing is begun any more -/

/-- Once the transfer is cancelled, no operation is begun. -/
def Journal.Obeys (j : Journal) : Prop :=
  ∀ before after : Journal, j = before ++ .cancelled :: after → after.begun = []

theorem Journal.Obeys.snoc {j : Journal} {e : Entry} (h : j.Obeys)
    (he : Journal.begun [e] = [] ∨ .cancelled ∉ j) : (j ++ [e]).Obeys := by
  intro before after heq
  rcases List.eq_nil_or_concat after with rfl | ⟨after, last, rfl⟩
  · rfl
  · have hsplit : j ++ [e] = (before ++ .cancelled :: after) ++ [last] := by
      simpa [List.concat_eq_append] using heq
    obtain ⟨hj, hlast⟩ := List.append_inj' hsplit rfl
    have hafter := h before after hj
    rcases he with he | he
    · calc Journal.begun (after.concat last)
        _ = Journal.begun after ++ Journal.begun [e] := by
          rw [List.concat_eq_append, begun_append, ← hlast]
        _ = [] := by rw [hafter, he, List.nil_append]
    · exact absurd (by simp [hj]) he

@[simp] theorem State.cancelled_note (s : State) (e : Entry) :
    (s.note e).cancelled = s.cancelled := rfl

/-- A transfer that is cancelled if it was before it started or if that was noted, and that has
begun nothing since. -/
structure State.Obedient (cancelled : Bool) (s : State) : Prop where
  cancelled_eq : s.cancelled = (cancelled || s.journal.contains .cancelled)
  obeys : s.journal.Obeys
  begun_eq : cancelled = true → s.journal.begun = []

namespace State.Obedient

variable {cancelled : Bool} {s t : State}

theorem start (cancelled : Bool) : Obedient cancelled (.start cancelled) where
  cancelled_eq := by simp [State.start, journal]
  obeys := by simp [Journal.Obeys, State.start, journal]
  begun_eq _ := rfl

theorem of_eq (h : s.Obedient cancelled) (hcancelled : t.cancelled = s.cancelled)
    (hpast : t.past = s.past) : t.Obedient cancelled := by
  have hjournal : t.journal = s.journal := congrArg List.reverse hpast
  exact ⟨by rw [hcancelled, hjournal, h.cancelled_eq], hjournal ▸ h.obeys, hjournal ▸ h.begun_eq⟩

theorem note (h : s.Obedient cancelled) {e : Entry} (hbegun : Journal.begun [e] = [])
    (he : e ≠ .cancelled) : (s.note e).Obedient cancelled where
  cancelled_eq := by
    rw [cancelled_note, h.cancelled_eq, journal_note, List.contains_append]
    simp [he.symm]
  obeys := by
    rw [journal_note]
    exact h.obeys.snoc (.inl hbegun)
  begun_eq hcancelled := by
    rw [journal_note, Journal.begun_append, h.begun_eq hcancelled, hbegun, List.nil_append]

theorem began (h : s.Obedient cancelled) (operation : Operation) (hs : s.cancelled = false) :
    (s.note (.began operation)).Obedient cancelled := by
  have hcancelled := h.cancelled_eq
  rw [hs, eq_comm] at hcancelled
  have hnot : cancelled = false ∧ Entry.cancelled ∉ s.journal := by simpa using hcancelled
  refine ⟨?_, ?_, fun hcancelled => ?_⟩
  · simpa [hnot] using hs
  · rw [journal_note]
    exact h.obeys.snoc (.inr hnot.2)
  · simp [hnot.1] at hcancelled

theorem cancel (h : s.Obedient cancelled) : s.cancel.Obedient cancelled := by
  have hjournal : s.cancel.journal = s.journal ++ [.cancelled] := s.journal_note .cancelled
  refine ⟨?_, ?_, fun hcancelled => ?_⟩
  · rw [hjournal]
    simp [State.cancel]
  · rw [hjournal]
    exact h.obeys.snoc (.inl rfl)
  · rw [hjournal, Journal.begun_append, h.begun_eq hcancelled]
    rfl

theorem cancelIf (h : s.Obedient cancelled) (cancels : Bool) :
    (s.cancelIf cancels).Obedient cancelled := by
  cases cancels with
  | false => exact h
  | true => exact h.cancel

theorem emit (h : s.Obedient cancelled) (watch : Watch) (e : Event) :
    (s.emit watch e).Obedient cancelled :=
  (h.note (e := .announced e) rfl (by simp)).cancelIf _

theorem advance (h : s.Obedient cancelled) (job : Job) (n : ℕ) :
    (job.advance n s).Obedient cancelled := by
  cases hdue : (s.progress.advance n).2 with
  | false => exact h.of_eq (by simp [Job.advance, hdue]) (by simp [Job.advance, hdue])
  | true =>
    have hcounted : State.Obedient cancelled { s with progress := (s.progress.advance n).1 } :=
      h.of_eq rfl rfl
    have hemit := hcounted.emit job.watch (.transfer ⟨.progress, (s.progress.advance n).1.total⟩)
    exact hemit.of_eq (by simp [Job.advance, hdue]) (by simp [Job.advance, hdue])

end State.Obedient

theorem Job.respects_obedient (job : Job) (cancelled : Bool) :
    job.Respects (State.Obedient cancelled) where
  note hdeed h := by
    refine h.note ?_ ?_ <;> cases ‹Entry› <;> simp_all [Entry.isDeed]
  began operation hs h := h.began operation hs
  cancel h := h.cancel
  call h := h.of_eq rfl rfl
  advance n h := h.advance _ n

theorem State.Went.isPrefix {s t : State} {k : Journal} {n : ℕ} (h : s.Went k n t) :
    s.journal <+: t.journal :=
  ⟨k, h.journal_eq.symm⟩

theorem State.Waited.isPrefix {s t : State} (h : s.Waited t) : s.journal <+: t.journal := by
  obtain ⟨k, -, hwent⟩ := h
  exact hwent.isPrefix

/-! ## Whole transfers -/

namespace Plan

variable {p : Plan} {opening : Opening} {cancelled : Bool}

theorem obedient_establish (p : Plan) (opening : Opening) (cancelled : Bool) :
    (p.establish opening (.start cancelled)).2.Obedient cancelled := by
  have hstart := State.Obedient.start cancelled
  unfold establish
  split
  · exact hstart
  · next hopen =>
    have hbegan := hstart.began .connect (Bool.not_eq_true _ ▸ hopen)
    cases opening with
    | timesOut => exact hbegan
    | turn peer =>
      cases peer with
      | stalls => exact hbegan.cancel
      | completes result cancels =>
        cases result <;> exact hbegan.cancelIf cancels

/-- A transfer without a connection, or one that moved payload; what its listeners do once it is
over makes no difference to its result. -/
theorem run_cases (p : Plan) (opening : Opening) (cancelled : Bool) :
    let s := (p.establish opening (.start cancelled)).2
    (∃ e t, (p.establish opening (.start cancelled)).1 = .error e ∧ e.precedesOpening = true ∧
        p.run opening cancelled = report (.error e)
          ((s.emit p.watch (.connection (.failed e.message))).emit p.watch t)) ∨
      ∃ peer t t', (p.establish opening (.start cancelled)).1 = .ok peer ∧
        let begun := (s.emit p.watch (.connection (.opened peer))).emit p.watch
          (.transfer ⟨.started, 0⟩)
        let ended := p.job.pump p.source p.job.filter.start begun
        p.run opening cancelled = report (result ended.1 ended.2.moved)
          ((ended.2.emit p.watch t).emit p.watch t') := by
  obtain ⟨s, -, -, -, ⟨e, heq, he⟩ | ⟨peer, heq⟩⟩ := p.establish_cases opening (.start cancelled)
  · simp only [heq]
    exact .inl ⟨e, _, rfl, he, run_of_error heq⟩
  · simp only [heq]
    exact .inr ⟨peer, _, _, rfl, run_of_ok heq⟩

theorem obedient_run (p : Plan) (opening : Opening) (cancelled : Bool) :
    ∃ s : State, s.Obedient cancelled ∧ s.journal = (p.run opening cancelled).journal ∧
      s.cancelled = (p.run opening cancelled).cancelled := by
  have hestablish := p.obedient_establish opening cancelled
  rcases p.run_cases opening cancelled with ⟨e, t, -, -, hrun⟩ | ⟨peer, t, t', -, hrun⟩
  · rw [hrun]
    exact ⟨_, (hestablish.emit _ _).emit _ _, rfl, rfl⟩
  · rw [hrun]
    have hbegun := (hestablish.emit p.watch (.connection (.opened peer))).emit p.watch
      (.transfer ⟨.started, 0⟩)
    have hended := (p.job.respects_obedient cancelled).pump p.source p.job.filter.start hbegun
    exact ⟨_, (hended.emit _ _).emit _ _, rfl, rfl⟩

/-! ## With a connection -/

theorem matches_establish {peer : Address}
    (h : (p.establish opening (.start cancelled)).1 = .ok peer) :
    ((State.start cancelled).note (.began .connect)).Matches
      (p.establish opening (.start cancelled)).2 := by
  unfold establish at h ⊢
  split at h
  · simp at h
  · next hopen =>
    rw [if_neg hopen]
    cases opening with
    | timesOut => simp at h
    | turn peer =>
      cases peer with
      | stalls => simp at h
      | completes result cancels =>
        cases result with
        | error fault => simp at h
        | ok peer => exact State.matches_cancelIf _ cancels

theorem abreast_start (p : Plan) (cancelled : Bool) :
    p.Abreast p.source p.job.filter.start ((State.start cancelled).note (.began .connect)) := by
  have hjournal : ((State.start cancelled).note (.began .connect)).journal = [.began .connect] :=
    rfl
  refine ⟨?_, ⟨[], ?_⟩, ?_, ?_, ?_, ?_⟩
  · simp [hjournal]
  · rw [hjournal]
    rfl
  · rw [hjournal]
    rfl
  · simp [hjournal]
  · simp [hjournal, fault?]
  · rw [hjournal]
    exact not_ends_of_last rfl (by simp)

/-- The payload of the blocks that were written out whole. -/
def payload (p : Plan) (j : Journal) : ℕ := (j.moves.map p.job.direction.payload).sum

/-- A transfer with a connection reports the payload of the blocks that were written out whole: with
a fault, if the operation begun last failed or the filter did on what it delivered, and as complete
if that operation was the shutdown of the sink and completed.  In all other cases it reports that it
was cancelled. -/
structure Settled (p : Plan) (r : Report) : Prop where
  failed : ∀ fault, p.fault? r.journal = some fault →
    r.result = .error (.truncated (p.payload r.journal) fault)
  complete : p.Ends r.journal → r.result = .ok ⟨p.payload r.journal, false⟩
  cancelled : p.fault? r.journal = none → ¬ p.Ends r.journal →
    r.result = .ok ⟨p.payload r.journal, true⟩

theorem fault?_of_ends {j : Journal} (h : p.Ends j) : p.fault? j = none := by
  obtain ⟨hlast, cancels, hturn⟩ := h
  rw [fault?_of_shutdown hlast, hturn]
  rfl

theorem settled_of_accounts {ending : Ending} {s : State} (h : p.Accounts (ending, s)) {n : ℕ}
    (hn : n = p.payload s.journal) : p.Settled (report (result ending n) s) := by
  subst hn
  cases ending with
  | complete =>
    obtain ⟨hfault, hends⟩ : p.fault? s.journal = none ∧ p.Ends s.journal := h
    exact ⟨fun fault h => absurd (hfault.symm.trans h) (by simp), fun _ => rfl,
      fun _ hnot => absurd hends hnot⟩
  | cancelled =>
    obtain ⟨hfault, hends⟩ : p.Clear s.journal := h
    exact ⟨fun fault h => absurd (hfault.symm.trans h) (by simp), fun h => absurd h hends,
      fun _ _ => rfl⟩
  | failed fault =>
    have hfault : p.fault? s.journal = some fault := h
    refine ⟨fun fault' h => ?_, fun h => ?_, fun h => ?_⟩
    · obtain rfl : fault = fault' := Option.some.inj (hfault.symm.trans h)
      rfl
    · exact absurd ((fault?_of_ends h).symm.trans hfault) (by simp)
    · exact absurd (h.symm.trans hfault) (by simp)

theorem payload?_of_opened {peer : Address}
    (h : .connection (.opened peer) ∈ (p.run opening cancelled).events) :
    ∃ n, payload? (p.run opening cancelled).result = some n := by
  cases p.tells_run opening cancelled with
  | unopened e hresult he hevents =>
    rw [hevents] at h
    simp [unopenedEvents] at h
  | opened peer totals last hrising hevents hpayload => exact ⟨last, hpayload⟩

theorem settled_run {peer : Address}
    (h : .connection (.opened peer) ∈ (p.run opening cancelled).events) :
    p.Settled (p.run opening cancelled) := by
  obtain ⟨n, hpayload⟩ := payload?_of_opened h
  have hn := (settles_of_payload hpayload).counted
  rcases p.run_cases opening cancelled with ⟨e, t, -, he, hrun⟩ | ⟨peer, t, t', heq, hrun⟩
  · rw [hrun] at hpayload
    exact absurd ((payload?_of_precedesOpening he).symm.trans hpayload) (by simp)
  · have hbegun := ((matches_establish heq).trans
      (State.matches_emit _ p.watch (.connection (.opened peer)))).trans
        (State.matches_emit _ p.watch (.transfer ⟨.started, 0⟩))
    have haccounts := p.accounts_pump p.source p.job.filter.start _
      ((p.abreast_start cancelled).of_matches hbegun)
    have hclosed := haccounts.of_matches
      ((State.matches_emit _ p.watch t).trans (State.matches_emit _ p.watch t'))
    rw [hrun] at hpayload hn
    rw [hrun]
    refine settled_of_accounts hclosed ?_
    rw [← Option.some.inj ((payload?_result _ _).symm.trans hpayload)] at hn
    exact hn

/-! ## Without a connection -/

/-- Something is announced as soon as the wait for the connection is over. -/
theorem exists_announced (p : Plan) (opening : Opening) (cancelled : Bool) :
    ∃ e, (p.establish opening (.start cancelled)).2.journal ++ [.announced e] <+:
      (p.run opening cancelled).journal := by
  have hemit (s : State) (e : Event) : s.journal ++ [.announced e] <+: (s.emit p.watch e).journal :=
    s.journal_note (.announced e) ▸ (State.waited_cancelIf _ _).isPrefix
  rcases p.run_cases opening cancelled with ⟨e, t, -, -, hrun⟩ | ⟨peer, t, t', -, hrun⟩
  · rw [hrun]
    exact ⟨_, (hemit _ _).trans (State.waited_emit _ _ _).isPrefix⟩
  · rw [hrun]
    obtain ⟨k, n, hended, -⟩ := p.job.pump_carries p.source p.job.filter.start
      (((p.establish opening (.start cancelled)).2.emit p.watch
        (.connection (.opened peer))).emit p.watch (.transfer ⟨.started, 0⟩))
    have hclosed (s : State) : s.Waited ((s.emit p.watch t).emit p.watch t') :=
      (s.waited_emit p.watch t).trans (State.waited_emit _ p.watch t')
    exact ⟨_, (hemit _ _).trans ((State.waited_emit _ _ _).isPrefix.trans
      (hended.isPrefix.trans (hclosed _).isPrefix))⟩

/-- A moment before the first announcement is in the wait for the connection. -/
theorem cancelled_mem_of_split {i j before after : Journal} {e : Event}
    (hfirst : i ++ [.announced e] <+: j) (hsplit : j = before ++ .cancelled :: after)
    (hevents : before.events = []) : .cancelled ∈ i := by
  have hsilent (l : Journal) : (i ++ [Entry.announced e] ++ l).events ≠ [] := by
    rw [Journal.events_append, Journal.events_append, Journal.events_announced]
    simp
  rw [hsplit] at hfirst
  rcases Journal.prefix_append_cases hfirst with ⟨l, hl⟩ | ⟨l, hl, hrest⟩
  · exact absurd (hl ▸ hevents) (hsilent l)
  · rcases List.prefix_cons_iff.mp hrest with rfl | ⟨l', rfl, -⟩
    · have hsame : before = i ++ [.announced e] ++ [] := by simpa using hl.symm
      exact absurd (hsame ▸ hevents) (hsilent [])
    · have hmem : Entry.cancelled ∈ i ++ [.announced e] := by simp [hl]
      simpa using hmem

theorem cancelled_in_establish
    (h : .cancelled ∈ (p.establish opening (.start cancelled)).2.journal) :
    opening = .turn .stalls ∨ ∃ result, opening = .turn (.completes result true) := by
  unfold establish at h
  split at h
  · simp [State.start, State.journal] at h
  · cases opening with
    | timesOut => simp [State.start, State.journal, State.note] at h
    | turn peer =>
      cases peer with
      | stalls => exact .inl rfl
      | completes result cancels =>
        cases cancels with
        | true => exact .inr ⟨result, rfl⟩
        | false =>
          cases result <;> simp [State.start, State.journal, State.note, State.cancelIf] at h

theorem result_of_error {e : Error}
    (h : (p.establish opening (.start cancelled)).1 = .error e) :
    (p.run opening cancelled).result = .error e ∧ (p.run opening cancelled).journal.blocks = [] ∧
      (p.run opening cancelled).written = [] := by
  rcases p.run_cases opening cancelled with ⟨e', t, heq, he, hrun⟩ | ⟨peer, t, t', heq, hrun⟩
  · obtain rfl : e = e' := Except.error.inj (h.symm.trans heq)
    have hresult : (p.run opening cancelled).result = .error e := by rw [hrun]; rfl
    have hpayload : payload? (p.run opening cancelled).result = none := by
      rw [hresult, payload?_of_precedesOpening he]
    rcases p.run_carries opening cancelled with ⟨-, hidle⟩ | ⟨ending, n, k, l, -, -, hended, -⟩
    · exact ⟨hresult, hidle.blocks_eq, hidle.written_eq⟩
    · exact absurd ((payload?_result ending n).symm.trans (hended ▸ hpayload)) (by simp)
  · exact absurd (h.symm.trans heq) (by simp)

theorem establish_of_cancelled (h : cancelled = true ∨ opening = .turn .stalls) :
    (p.establish opening (.start cancelled)).1 = .error .cancelled := by
  by_cases hcancelled : cancelled = true
  · simp [establish, State.start, hcancelled]
  · obtain rfl : opening = .turn .stalls := h.resolve_left hcancelled
    simp [establish, State.start, hcancelled]

/-- What cancelling a transfer comes to, for every moment at which it is cancelled. -/
structure HeedsCancellation (p : Plan) (opening : Opening) (cancelled : Bool) (r : Report) :
    Prop where
  /-- It begins nothing if it is cancelled before it starts. -/
  unstarted : cancelled = true → r.result = .error .cancelled ∧ r.journal.begun = [] ∧
    r.journal.blocks = [] ∧ r.written = []
  /-- Once cancelled, it begins nothing. -/
  obeys : ∀ before after : Journal, r.journal = before ++ .cancelled :: after → after.begun = []
  /-- Cancelled while it waits for its connection it moves nothing, unless the wait is over in that
  very moment. -/
  unopened : ∀ before after : Journal, r.journal = before ++ .cancelled :: after →
    before.events = [] → (∀ result, opening ≠ .turn (.completes result true)) →
    r.result = .error .cancelled ∧ r.journal.blocks = [] ∧ r.written = []
  /-- With a connection, the operation in progress decides what is reported; it is the last of
  all. -/
  opened : ∀ (before after : Journal) (peer : Address),
    r.journal = before ++ .cancelled :: after → .connection (.opened peer) ∈ r.events →
    before.begun = r.journal.begun ∧ p.Settled r
  not_cancelled : ∀ peer, .connection (.opened peer) ∈ r.events → r.result ≠ .error .cancelled
  /-- All cancellations are noted, but for one before it starts. -/
  cancelled_iff : r.cancelled = true ↔ cancelled = true ∨ .cancelled ∈ r.journal

theorem run_heeds_cancellation (p : Plan) (opening : Opening) (cancelled : Bool) :
    p.HeedsCancellation opening cancelled (p.run opening cancelled) := by
  obtain ⟨s, hs, hjournal, hcancelled⟩ := p.obedient_run opening cancelled
  have hobeys : (p.run opening cancelled).journal.Obeys := hjournal ▸ hs.obeys
  constructor
  · intro hstart
    have hestablish : (p.establish opening (.start cancelled)).1 = .error .cancelled :=
      establish_of_cancelled (.inl hstart)
    obtain ⟨hresult, hblocks, hwritten⟩ := result_of_error hestablish
    exact ⟨hresult, hjournal ▸ hs.begun_eq hstart, hblocks, hwritten⟩
  · exact hobeys
  · intro before after hsplit hevents hnot
    obtain ⟨e, hfirst⟩ := p.exists_announced opening cancelled
    rcases cancelled_in_establish (cancelled_mem_of_split hfirst hsplit hevents) with
      hstalls | ⟨result, hcompletes⟩
    · exact result_of_error (establish_of_cancelled (.inr hstalls))
    · exact absurd hcompletes (hnot result)
  · intro before after peer hsplit hopened
    refine ⟨?_, settled_run hopened⟩
    have hafter := hobeys before after hsplit
    rw [hsplit]
    simp [hafter]
  · intro peer hopened hresult
    obtain ⟨n, hpayload⟩ := payload?_of_opened hopened
    rw [hresult] at hpayload
    simp [payload?] at hpayload
  · rw [← hcancelled, hs.cancelled_eq, hjournal]
    simp

/-- The last block is read in the very moment in which the transfer is cancelled: it is not written
and does not count. -/
example :
    let r := (linesOut .stream [.now [97, 10], .completes (.ok [98]) true]).run reached false
    r.result = .ok ⟨2, true⟩ ∧ r.journal.begun = [.connect, .read, .write, .read] := by
  decide +kernel

end Plan

end FaxClient.Transfer
