import FaxClient.Proofs.Transfer.Cancellation

/-!
# Transfers that nobody cancels

A transfer that is started for a document is in nobody's hands: whoever asked for the document
waits for the server, and no one else knows of it.  If nothing that happens cancels a transfer, it
comes to its end or fails; it does not end as one that was cancelled.
-/

namespace FaxClient.Transfer

/-- The operation completes, and the transfer is not cancelled while it does. -/
def Turn.Undisturbed {α : Type} : Turn α → Prop
  | .completes _ cancels => cancels = false
  | .stalls => False

structure Sink.Undisturbed (sink : Sink) : Prop where
  write : ∀ n, (sink.write n).Undisturbed
  flush : sink.flush.Undisturbed
  shutdown : sink.shutdown.Undisturbed

structure Job.Undisturbed (job : Job) : Prop where
  sink : job.sink.Undisturbed
  watch : ∀ events, job.watch events = false

/-- Payload was moved, or could not be, without the transfer being cancelled. -/
structure Unbroken (x : Ending × State) : Prop where
  ending_ne : x.1 ≠ .cancelled
  cancelled_eq : x.2.cancelled = false

/-! ## Moving payload -/

section

variable {job : Job} {s : State}

theorem State.cancelled_emit {watch : Watch} (hwatch : ∀ events, watch events = false) (s : State)
    (e : Event) : (s.emit watch e).cancelled = s.cancelled := by
  simp [emit, cancelIf, hwatch]

namespace Job

theorem undisturbed_await {α : Type} {operation : Operation} {turn : Turn α}
    {next : α → State → Ending × State} (hturn : turn.Undisturbed) (hs : s.cancelled = false)
    (hnext : ∀ a t, t.cancelled = false → Unbroken (next a t)) :
    Unbroken (await operation turn s next) := by
  rw [await, if_neg (Bool.not_eq_true _ ▸ hs)]
  cases turn with
  | stalls => exact hturn.elim
  | completes result cancels =>
    obtain rfl : cancels = false := hturn
    cases result with
    | error fault => exact ⟨by simp, hs⟩
    | ok a => exact hnext a _ hs

theorem undisturbed_writeCalls {sink : Sink} (hsink : ∀ n, (sink.write n).Undisturbed)
    (octets : Octets) (hs : s.cancelled = false) :
    Unbroken (writeCalls sink octets s) := by
  have hcancels : ∀ {n result cancels}, sink.write n = .completes result cancels →
      cancels = false := by
    intro n result cancels hturn
    have hwrite := hsink n
    rwa [hturn] at hwrite
  fun_induction writeCalls sink octets s with
  | case1 s => exact ⟨by simp, hs⟩
  | case2 s b rest s' hturn =>
    have hwrite := hsink s'.calls
    rw [hturn] at hwrite
    exact hwrite.elim
  | case3 s b rest s' fault cancels hturn =>
    obtain rfl := hcancels hturn
    exact ⟨by simp, hs⟩
  | case4 s b rest s' cancels hturn =>
    obtain rfl := hcancels hturn
    exact ⟨by simp, hs⟩
  | case5 s b rest s' k cancels hturn ih =>
    obtain rfl := hcancels hturn
    exact ih hs
  | case6 s b rest s' cancels hturn =>
    obtain rfl := hcancels hturn
    exact ⟨by simp, hs⟩

theorem undisturbed_write (h : job.Undisturbed) (block out : Octets) (hs : s.cancelled = false) :
    Unbroken (job.write block out s) := by
  have hcalls : Unbroken (writeCalls job.sink out (s.note (.began .write))) :=
    undisturbed_writeCalls h.sink.write out hs
  rw [write, if_neg (Bool.not_eq_true _ ▸ hs)]
  split
  · next heq =>
    rw [heq] at hcalls
    exact ⟨by simp, hcalls.cancelled_eq⟩
  · exact hcalls

theorem cancelled_advance (h : job.Undisturbed) (n : ℕ) (s : State) :
    (job.advance n s).cancelled = s.cancelled := by
  cases hdue : (s.progress.advance n).2 with
  | false => simp [advance, hdue]
  | true => simp [advance, hdue, State.cancelled_emit h.watch]

theorem undisturbed_endSink (h : job.Undisturbed) (hs : s.cancelled = false) :
    Unbroken (job.endSink s) := by
  refine undisturbed_await h.sink.flush hs fun _ t ht => ?_
  refine undisturbed_await h.sink.shutdown ht fun _ u hu => ?_
  exact ⟨by simp, hu⟩

theorem undisturbed_finish (h : job.Undisturbed) (f : job.filter.State)
    (hs : s.cancelled = false) : Unbroken (job.finish f s) := by
  unfold finish
  split
  · exact ⟨by simp, hs⟩
  · next out f' hfinish =>
    have hwrite := undisturbed_write h [] out hs
    split
    · next t hcomplete =>
      rw [hcomplete] at hwrite
      apply undisturbed_endSink h
      split
      · exact hwrite.cancelled_eq
      · exact (cancelled_advance h _ t).trans hwrite.cancelled_eq
    · exact hwrite

/-- Nothing but a cancellation ends the moving of payload as cancelled. -/
theorem undisturbed_pump (h : job.Undisturbed) {source : Source}
    (hsource : ∀ turn ∈ source, turn.Undisturbed) (f : job.filter.State)
    (hs : s.cancelled = false) : Unbroken (job.pump source f s) := by
  induction source generalizing f s with
  | nil => exact undisturbed_await rfl hs fun _ t ht => undisturbed_finish h f ht
  | cons turn rest ih =>
    have hrest : ∀ turn ∈ rest, turn.Undisturbed :=
      fun turn hturn => hsource turn (List.mem_cons_of_mem _ hturn)
    refine undisturbed_await (hsource turn List.mem_cons_self) hs fun block t ht => ?_
    split
    · exact undisturbed_finish h f ht
    · dsimp only
      split
      · exact ⟨by simp, ht⟩
      · next out f' hpush =>
        have hread : (t.note (.read block)).cancelled = false := ht
        have hwrite := undisturbed_write h block out hread
        split
        · next u hcomplete =>
          rw [hcomplete] at hwrite
          exact ih hrest f' ((cancelled_advance h _ u).trans hwrite.cancelled_eq)
        · exact hwrite

end Job

end

/-! ## Whole transfers -/

def Opening.Undisturbed : Opening → Prop
  | .turn peer => peer.Undisturbed
  | .timesOut => True

structure Plan.Undisturbed (p : Plan) : Prop where
  job : p.job.Undisturbed
  source : ∀ turn ∈ p.source, turn.Undisturbed

namespace Plan

variable {p : Plan} {opening : Opening}

theorem cancelled_establish (hopening : opening.Undisturbed) :
    (p.establish opening (.start false)).2.cancelled = false := by
  cases opening with
  | timesOut => rfl
  | turn peer =>
    cases peer with
    | stalls => exact hopening.elim
    | completes result cancels =>
      obtain rfl : cancels = false := hopening
      cases result <;> rfl

theorem cancelled_eq_of_result {ending : Ending} {n : ℕ} {outcome : Outcome}
    (hending : ending ≠ .cancelled) (h : result ending n = .ok outcome) :
    outcome.cancelled = false := by
  cases ending with
  | complete =>
    obtain rfl := Except.ok.inj h
    rfl
  | cancelled => exact absurd rfl hending
  | failed fault => simp [result] at h

theorem cancelled_eq_of_undisturbed (h : p.Undisturbed) (hopening : opening.Undisturbed)
    {outcome : Outcome} (hresult : (p.run opening false).result = .ok outcome) :
    outcome.cancelled = false := by
  rcases p.run_cases opening false with ⟨e, t, -, -, hrun⟩ | ⟨peer, t, t', -, hrun⟩
  · rw [hrun] at hresult
    simp [report] at hresult
  · have hwatch : ∀ events, p.watch events = false := h.job.watch
    have hbegun : (((p.establish opening (.start false)).2.emit p.watch
        (.connection (.opened peer))).emit p.watch (.transfer ⟨.started, 0⟩)).cancelled =
          false := by
      rw [State.cancelled_emit hwatch, State.cancelled_emit hwatch, cancelled_establish hopening]
    have hpump := Job.undisturbed_pump h.job h.source p.job.filter.start hbegun
    rw [hrun] at hresult
    exact cancelled_eq_of_result hpump.ending_ne hresult

end Plan

end FaxClient.Transfer
