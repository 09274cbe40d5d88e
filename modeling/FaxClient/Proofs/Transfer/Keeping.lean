import FaxClient.Transfer.Run
import Mathlib

/-!
# What moving payload keeps

Moving payload changes a transfer in a few ways only: a deed is noted, an operation is begun while
the transfer is not cancelled, the transfer is cancelled, a write call is counted, and payload is
counted.  A property that each of them keeps is kept by the whole, and so is one that is given up
when a block was written out whole and comes back when its payload is counted.
-/

namespace FaxClient.Transfer

namespace Entry

/-- The event that an entry tells of. -/
def event? : Entry → Option Event
  | .announced e => some e
  | _ => none

/-- Whether an entry tells of something done to payload or to the sink. -/
def isDeed : Entry → Bool
  | .read _ | .took _ | .moved .. | .flushed | .shut => true
  | .began _ | .announced _ | .cancelled => false

theorem event?_of_isDeed {e : Entry} (h : e.isDeed = true) : e.event? = none := by
  cases e <;> first | rfl | simp [isDeed] at h

end Entry

/-- The payload that a block counts for once what it became is written. -/
def Direction.payload : Direction → Octets × Octets → Nat
  | .upload, (block, _) => block.length
  | .download, (_, out) => out.length

/-- Two properties of a transfer while payload is moved, given that no operation is begun once the
transfer is cancelled: `Even` whenever all that was moved is counted, and `Owing` from when a block
was written out whole until its payload is counted. -/
structure Job.Balances (job : Job) (Even : State → Prop) (Owing : Octets × Octets → State → Prop) :
    Prop where
  note : ∀ {s : State} {e : Entry}, e.isDeed = true → (∀ block out, e ≠ .moved block out) →
    Even s → Even (s.note e)
  began : ∀ {s : State} (operation : Operation), s.cancelled = false → Even s →
    Even (s.note (.began operation))
  cancel : ∀ {s : State}, Even s → Even s.cancel
  call : ∀ {s : State}, Even s → Even { s with calls := s.calls + 1 }
  moved : ∀ {s : State} (block out : Octets), Even s → Owing (block, out) (s.note (.moved block out))
  counted : ∀ {s : State} (move : Octets × Octets), Owing move s →
    Even (job.advance (job.direction.payload move) s)
  /-- What the filter of an upload gives at the end is not counted. -/
  uncounted : ∀ {s : State} (out : Octets), job.direction = .upload → Owing ([], out) s → Even s

namespace Job.Balances

variable {job : Job} {Even : State → Prop} {Owing : Octets × Octets → State → Prop} {s : State}

theorem cancelIf (h : job.Balances Even Owing) (hs : Even s) (cancels : Bool) :
    Even (s.cancelIf cancels) := by
  cases cancels with
  | false => exact hs
  | true => exact h.cancel hs

theorem await {α : Type} (h : job.Balances Even Owing) (hs : Even s) {operation : Operation}
    {turn : Turn α} {next : α → State → Ending × State}
    (hnext : ∀ a s, Even s → Even (next a s).2) :
    Even (Job.await operation turn s next).2 := by
  unfold Job.await
  split
  · exact hs
  · next hopen =>
    have hbegan : Even (s.note (.began operation)) :=
      h.began _ (Bool.not_eq_true _ ▸ hopen) hs
    cases turn with
    | stalls => exact h.cancel hbegan
    | completes result cancels =>
      have hcancelled := h.cancelIf hbegan cancels
      cases result with
      | error fault => exact hcancelled
      | ok a => exact hnext a _ hcancelled

theorem writeCalls (h : job.Balances Even Owing) (sink : Sink) (octets : Octets) (hs : Even s) :
    Even (Job.writeCalls sink octets s).2 := by
  fun_induction Job.writeCalls sink octets s with
  | case1 s => exact hs
  | case2 s b rest s' hturn => exact h.cancel (h.call hs)
  | case3 s b rest s' fault cancels hturn => exact h.cancelIf (h.call hs) cancels
  | case4 s b rest s' cancels hturn => exact h.cancelIf (h.call hs) cancels
  | case5 s b rest s' k cancels hturn ih =>
    exact ih (h.cancelIf (h.note rfl (by simp) (h.call hs)) cancels)
  | case6 s b rest s' cancels hturn =>
    exact h.cancelIf (h.note rfl (by simp) (h.call hs)) cancels

/-- What a block became is written out whole, and then the block is owed; or it is not. -/
theorem write (h : job.Balances Even Owing) (block out : Octets) (hs : Even s) :
    (∃ t, job.write block out s = (.complete, t) ∧ Owing (block, out) t) ∨
      (job.write block out s).1 ≠ .complete ∧ Even (job.write block out s).2 := by
  unfold Job.write
  split
  · exact .inr ⟨by simp, hs⟩
  · next hopen =>
    have hbegan : Even (s.note (.began .write)) := h.began _ (Bool.not_eq_true _ ▸ hopen) hs
    have hcalls := h.writeCalls job.sink out hbegan
    split
    · next t heq =>
      rw [heq] at hcalls
      exact .inl ⟨_, rfl, h.moved block out hcalls⟩
    · next hstopped =>
      refine .inr ⟨fun hcomplete => ?_, hcalls⟩
      exact hstopped _ (Prod.ext hcomplete rfl)

theorem endSink (h : job.Balances Even Owing) (hs : Even s) : Even (job.endSink s).2 := by
  refine h.await hs fun _ s hs => ?_
  refine h.await (h.note rfl (by simp) hs) fun _ s hs => ?_
  exact h.note rfl (by simp) hs

theorem finish (h : job.Balances Even Owing) (f : job.filter.State) (hs : Even s) :
    Even (job.finish f s).2 := by
  unfold Job.finish
  split
  · exact hs
  · next out f' hfinish =>
    rcases h.write [] out hs with ⟨t, hwrite, ht⟩ | ⟨hending, hstopped⟩
    · rw [hwrite]
      apply h.endSink
      cases hdirection : job.direction with
      | upload => exact h.uncounted out hdirection ht
      | download =>
        have hcounted := h.counted ([], out) ht
        rwa [hdirection] at hcounted
    · split
      · next t hwrite => exact absurd (congrArg Prod.fst hwrite) hending
      · exact hstopped

/-- Payload is moved no more only when all that was moved is counted. -/
theorem pump (h : job.Balances Even Owing) (source : Source) (f : job.filter.State) (hs : Even s) :
    Even (job.pump source f s).2 := by
  induction source generalizing f s with
  | nil => exact h.await hs fun _ s hs => h.finish f hs
  | cons turn rest ih =>
    refine h.await hs fun block s hs => ?_
    split
    · exact h.finish f hs
    · have hread : Even (s.note (.read block)) := h.note rfl (by simp) hs
      dsimp only
      split
      · exact hread
      · next out f' hpush =>
        rcases h.write block out hread with ⟨t, hwrite, ht⟩ | ⟨hending, hstopped⟩
        · rw [hwrite]
          apply ih f'
          have hcounted := h.counted (block, out) ht
          cases hdirection : job.direction <;> rwa [hdirection] at hcounted
        · split
          · next t hwrite => exact absurd (congrArg Prod.fst hwrite) hending
          · exact hstopped

end Job.Balances

/-- A property of a transfer that is kept while payload is moved, given that no operation is begun
once the transfer is cancelled. -/
structure Job.Respects (job : Job) (P : State → Prop) : Prop where
  note : ∀ {s : State} {e : Entry}, e.isDeed = true → P s → P (s.note e)
  began : ∀ {s : State} (operation : Operation), s.cancelled = false → P s →
    P (s.note (.began operation))
  cancel : ∀ {s : State}, P s → P s.cancel
  call : ∀ {s : State}, P s → P { s with calls := s.calls + 1 }
  advance : ∀ {s : State} (n : Nat), P s → P (job.advance n s)

namespace Job.Respects

variable {job : Job} {P : State → Prop} {s : State}

theorem balances (h : job.Respects P) : job.Balances P fun _ => P where
  note hdeed _ hs := h.note hdeed hs
  began := h.began
  cancel := h.cancel
  call := h.call
  moved _ _ hs := h.note rfl hs
  counted _ hs := h.advance _ hs
  uncounted _ _ hs := hs

/-- What each way of change keeps is kept until payload is moved no more. -/
theorem pump (h : job.Respects P) (source : Source) (f : job.filter.State) (hs : P s) :
    P (job.pump source f s).2 :=
  h.balances.pump source f hs

end Job.Respects

/-- A property of a transfer that nothing which happens while payload is moved destroys. -/
structure Job.Keeps (job : Job) (P : State → Prop) : Prop where
  note : ∀ {s : State} {e : Entry}, e.event? = none → P s → P (s.note e)
  cancelled : ∀ {s : State}, P s → P { s with cancelled := true }
  call : ∀ {s : State}, P s → P { s with calls := s.calls + 1 }
  advance : ∀ {s : State} (n : Nat), P s → P (job.advance n s)

namespace Job.Keeps

variable {job : Job} {P : State → Prop} {s : State}

theorem respects (h : job.Keeps P) : job.Respects P where
  note hdeed hs := h.note (Entry.event?_of_isDeed hdeed) hs
  began _ _ hs := h.note rfl hs
  cancel hs := h.cancelled (h.note rfl hs)
  call := h.call
  advance := h.advance

theorem pump (h : job.Keeps P) (source : Source) (f : job.filter.State) (hs : P s) :
    P (job.pump source f s).2 :=
  h.respects.pump source f hs

end Job.Keeps

end FaxClient.Transfer
