import FaxClient.Proofs.Transfer.Keeping
import FaxClient.Proofs.Transfer.Progress

/-!
# What a transfer announces

A transfer that has a connection announces that it was opened and that the transfer started, then
progress, and at the end the payload moved and the connection closed, however moving payload came to
an end and whoever cancelled it when.  One without a connection announces why, and that it was
aborted.  The listener can tell from these which of the two it was, and the payload, and the result
says the same.
-/

namespace FaxClient.Transfer

/-! ## The history of announcements -/

namespace Journal

theorem events_eq_filterMap (j : Journal) : j.events = j.filterMap Entry.event? := rfl

@[simp] theorem events_append (j k : Journal) : (j ++ k).events = j.events ++ k.events := by
  simp [events_eq_filterMap]

@[simp] theorem events_announced (e : Event) : Journal.events [.announced e] = [e] := rfl

theorem events_singleton_of_silent {e : Entry} (h : e.event? = none) : Journal.events [e] = [] := by
  simp [events_eq_filterMap, h]

end Journal

namespace State

/-- All that was announced so far. -/
def told (s : State) : List Event := s.journal.events

theorem told_eq_of_past {s t : State} (h : s.past = t.past) : s.told = t.told := by
  simp only [told, journal, h]

@[simp] theorem told_start (cancelled : Bool) : (start cancelled).told = [] := rfl

theorem told_note (s : State) (e : Entry) : (s.note e).told = s.told ++ Journal.events [e] := by
  simp [told, journal, note]

theorem told_note_of_silent {e : Entry} (h : e.event? = none) (s : State) :
    (s.note e).told = s.told := by
  simp [told_note, Journal.events_singleton_of_silent h]

@[simp] theorem progress_note (s : State) (e : Entry) : (s.note e).progress = s.progress := rfl

@[simp] theorem moved_note (s : State) (e : Entry) : (s.note e).moved = s.moved := rfl

@[simp] theorem told_cancelIf (s : State) (cancels : Bool) :
    (s.cancelIf cancels).told = s.told := by
  cases cancels with
  | false => rfl
  | true => exact told_note_of_silent rfl s

@[simp] theorem progress_cancelIf (s : State) (cancels : Bool) :
    (s.cancelIf cancels).progress = s.progress := by
  cases cancels <;> rfl

@[simp] theorem moved_cancelIf (s : State) (cancels : Bool) :
    (s.cancelIf cancels).moved = s.moved := by
  cases cancels <;> rfl

@[simp] theorem told_emit (s : State) (watch : Watch) (e : Event) :
    (s.emit watch e).told = s.told ++ [e] := by
  simp [emit, told_note]

@[simp] theorem progress_emit (s : State) (watch : Watch) (e : Event) :
    (s.emit watch e).progress = s.progress := by
  simp [emit]

@[simp] theorem moved_emit (s : State) (watch : Watch) (e : Event) :
    (s.emit watch e).moved = s.moved := by
  simp [emit]

end State

/-! ## Counting payload -/

def progressEvent (total : Nat) : Event := .transfer ⟨.progress, total⟩

namespace Job

@[simp] theorem progress_advance (job : Job) (n : Nat) (s : State) :
    (job.advance n s).progress = (s.progress.advance n).1 := by
  cases hdue : (s.progress.advance n).2 <;> simp [advance, hdue]

@[simp] theorem moved_advance (job : Job) (n : Nat) (s : State) :
    (job.advance n s).moved = s.progress.total + n := by
  simp [advance]

/-- Progress is announced with the payload moved so far, this payload included. -/
theorem told_advance (job : Job) (n : Nat) (s : State) :
    (job.advance n s).told =
      s.told ++
        if (s.progress.advance n).2 then [progressEvent (s.progress.total + n)] else [] := by
  have hcounted : State.told { s with progress := (s.progress.advance n).1 } = s.told := rfl
  cases hdue : (s.progress.advance n).2 with
  | false =>
    have hsame : (job.advance n s).past = s.past := by simp [advance, hdue]
    simp [State.told_eq_of_past hsame]
  | true =>
    have hemit : (job.advance n s).past =
        (State.emit { s with progress := (s.progress.advance n).1 } job.watch
          (progressEvent (s.progress.total + n))).past := by
      simp [advance, hdue, progressEvent]
    simp [State.told_eq_of_past hemit, hcounted]

end Job

/-- Totals as they are announced on the way to a last one. -/
structure Rising (totals : List Nat) (last : Nat) : Prop where
  increasing : (0 :: totals).Pairwise (· < ·)
  le_last : ∀ total ∈ totals, total ≤ last

namespace Rising

theorem nil (last : Nat) : Rising [] last := ⟨by simp, by simp⟩

theorem mono {totals : List Nat} {m n : Nat} (h : Rising totals m) (hmn : m ≤ n) :
    Rising totals n :=
  ⟨h.increasing, fun total htotal => (h.le_last total htotal).trans hmn⟩

theorem append {totals : List Nat} {m n : Nat} (h : Rising totals m) (hmn : m < n) :
    Rising (totals ++ [n]) n := by
  refine ⟨?_, ?_⟩
  · rw [← List.cons_append, List.pairwise_append]
    refine ⟨h.increasing, by simp, ?_⟩
    intro total htotal last hlast
    rw [List.mem_singleton] at hlast
    subst hlast
    rcases List.mem_cons.mp htotal with rfl | htotal
    · omega
    · exact (h.le_last total htotal).trans_lt hmn
  · intro total htotal
    rcases List.mem_append.mp htotal with htotal | htotal
    · exact (h.le_last total htotal).trans hmn.le
    · exact (List.mem_singleton.mp htotal).le

end Rising

/-- After some first events only progress was announced, and the payload to be reported is the
payload counted. -/
structure Announcing (first : List Event) (s : State) : Prop where
  told_eq : ∃ totals, s.told = first ++ totals.map progressEvent ∧ Rising totals s.progress.total
  sound : s.progress.Sound
  moved_eq : s.moved = s.progress.total

theorem Announcing.advance {first : List Event} {s : State} (h : Announcing first s) (job : Job)
    (n : Nat) : Announcing first (job.advance n s) := by
  obtain ⟨totals, htold, hrising⟩ := h.told_eq
  refine ⟨?_, by simpa using h.sound.advance n, by simp⟩
  rw [Job.told_advance, htold, Job.progress_advance, Progress.total_advance]
  cases hdue : (s.progress.advance n).2 with
  | false => exact ⟨totals, by simp, hrising.mono (Nat.le_add_right _ n)⟩
  | true =>
    -- What is announced is more than before, because payload is due only when some was moved.
    have hpos := h.sound.pos_of_due hdue
    exact ⟨totals ++ [s.progress.total + n], by simp, hrising.append (by omega)⟩

theorem keeps_announcing (job : Job) (first : List Event) : job.Keeps (Announcing first) where
  note := fun he h => ⟨by simpa [State.told_note_of_silent he] using h.told_eq, h.sound, h.moved_eq⟩
  cancelled := fun h => ⟨h.told_eq, h.sound, h.moved_eq⟩
  call := fun h => ⟨h.told_eq, h.sound, h.moved_eq⟩
  advance := fun n h => h.advance job n

/-! ## Whole transfers -/

/-- Whether an error tells that there never was a connection. -/
def Error.precedesOpening : Error → Bool
  | .connect _ | .acceptTimeout _ | .connectTimeout _ | .cancelled => true
  | .bind _ | .truncated .. | .command _ | .worker _ => false

/-- The payload that the result of a transfer with a connection tells. -/
def payload? : Except Error Outcome → Option Nat
  | .ok outcome => some outcome.bytes
  | .error (.truncated moved _) => some moved
  | .error _ => none

/-- What a transfer without a connection announces. -/
def unopenedEvents (reason : String) : List Event :=
  [.connection (.failed reason), .transfer ⟨.aborted, 0⟩]

/-- What a transfer with a connection announces: progress at some totals, and the payload at the
end. -/
def openedEvents (peer : Address) (totals : List Nat) (last : Nat) : List Event :=
  [.connection (.opened peer), .transfer ⟨.started, 0⟩] ++ totals.map progressEvent ++
    [.transfer ⟨.completed, last⟩, .connection (.closed peer)]

theorem unopenedEvents_ne_openedEvents (reason : String) (peer : Address) (totals : List Nat)
    (last : Nat) : unopenedEvents reason ≠ openedEvents peer totals last := by
  simp [unopenedEvents, openedEvents]

theorem unopenedEvents_inj {reason reason' : String} :
    unopenedEvents reason = unopenedEvents reason' ↔ reason = reason' := by
  simp [unopenedEvents]

theorem last_eq_of_openedEvents_eq {peer peer' : Address} {totals totals' : List Nat}
    {last last' : Nat} (h : openedEvents peer totals last = openedEvents peer' totals' last') :
    last = last' := by
  have hreverse := congrArg List.reverse h
  simp only [openedEvents, List.reverse_append, List.reverse_cons, List.reverse_nil,
    List.nil_append, List.cons_append, List.cons.injEq] at hreverse
  simpa using hreverse.2.1

theorem payload?_result (ending : Ending) (moved : Nat) :
    payload? (Plan.result ending moved) = some moved := by
  cases ending <;> rfl

theorem payload?_of_precedesOpening {e : Error} (h : e.precedesOpening = true) :
    payload? (.error e) = none := by
  cases e <;> simp_all [Error.precedesOpening, payload?]

/-- A transfer had no connection and says why, or had one and tells its payload. -/
inductive Report.Tells (r : Report) : Prop
  | unopened (e : Error) (hresult : r.result = .error e) (he : e.precedesOpening = true)
      (hevents : r.events = unopenedEvents e.message)
  | opened (peer : Address) (totals : List Nat) (last : Nat) (hrising : Rising totals last)
      (hevents : r.events = openedEvents peer totals last)
      (hpayload : payload? r.result = some last)

namespace Report.Tells

variable {r : Report}

theorem unopened_iff (h : r.Tells) (reason : String) : r.events = unopenedEvents reason ↔
    ∃ e, r.result = .error e ∧ e.precedesOpening = true ∧ e.message = reason := by
  cases h with
  | unopened e hresult he hevents =>
    rw [hevents, unopenedEvents_inj]
    constructor
    · rintro rfl
      exact ⟨e, hresult, he, rfl⟩
    · rintro ⟨e', hresult', -, rfl⟩
      rw [Except.error.inj (hresult.symm.trans hresult')]
  | opened peer totals last hrising hevents hpayload =>
    constructor
    · intro h
      exact absurd (h.symm.trans hevents) (unopenedEvents_ne_openedEvents _ _ _ _)
    · rintro ⟨e, hresult, he, -⟩
      rw [hresult, payload?_of_precedesOpening he] at hpayload
      simp at hpayload

theorem opened_iff (h : r.Tells) (last : Nat) :
    (∃ peer totals, Rising totals last ∧ r.events = openedEvents peer totals last) ↔
      payload? r.result = some last := by
  cases h with
  | unopened e hresult he hevents =>
    have hnone : payload? r.result = none := by rw [hresult, payload?_of_precedesOpening he]
    constructor
    · rintro ⟨peer, totals, -, h⟩
      exact absurd (hevents.symm.trans h) (unopenedEvents_ne_openedEvents _ _ _ _)
    · intro h
      simp [hnone] at h
  | opened peer totals last' hrising hevents hpayload =>
    rw [hpayload, Option.some.injEq]
    constructor
    · rintro ⟨peer', totals', -, h⟩
      exact last_eq_of_openedEvents_eq (hevents.symm.trans h)
    · rintro rfl
      exact ⟨peer, totals, hrising, hevents⟩

theorem unopened_iff_not_opened (h : r.Tells) : (∃ reason, r.events = unopenedEvents reason) ↔
    ¬ ∃ peer totals last, Rising totals last ∧ r.events = openedEvents peer totals last := by
  cases h with
  | unopened e hresult he hevents =>
    refine ⟨fun _ => ?_, fun _ => ⟨_, hevents⟩⟩
    rintro ⟨peer, totals, last, -, h⟩
    exact unopenedEvents_ne_openedEvents _ _ _ _ (hevents.symm.trans h)
  | opened peer totals last hrising hevents hpayload =>
    constructor
    · rintro ⟨reason, h⟩
      exact absurd (h.symm.trans hevents) (unopenedEvents_ne_openedEvents _ _ _ _)
    · intro h
      exact absurd ⟨peer, totals, last, hrising, hevents⟩ h

end Report.Tells

namespace Plan

/-- Waiting for the connection announces and counts nothing. -/
theorem establish_cases (p : Plan) (opening : Opening) (s : State) :
    ∃ t : State, t.told = s.told ∧ t.progress = s.progress ∧ t.moved = s.moved ∧
      ((∃ e, p.establish opening s = (.error e, t) ∧ e.precedesOpening = true) ∨
        ∃ peer, p.establish opening s = (.ok peer, t)) := by
  have hbegan : (s.note (.began .connect)).told = s.told := State.told_note_of_silent rfl s
  have hcancelled (cancels : Bool) :
      ((s.note (.began .connect)).cancelIf cancels).told = s.told := by simp [hbegan]
  by_cases hs : s.cancelled
  · exact ⟨s, rfl, rfl, rfl, .inl ⟨.cancelled, by simp [establish, hs], rfl⟩⟩
  · cases opening with
    | timesOut =>
      refine ⟨_, hbegan, rfl, rfl, .inl ⟨p.timeoutError, by simp [establish, hs], ?_⟩⟩
      cases hside : p.side <;> simp [timeoutError, hside, Error.precedesOpening]
    | turn peer =>
      cases peer with
      | stalls =>
        exact ⟨_, hcancelled true, rfl, rfl, .inl ⟨.cancelled, by simp [establish, hs,
          State.cancelIf], rfl⟩⟩
      | completes result cancels =>
        refine ⟨_, hcancelled cancels, by simp, by simp, ?_⟩
        cases result with
        | error fault => exact .inl ⟨.connect fault, by simp [establish, hs], rfl⟩
        | ok peer => exact .inr ⟨peer, by simp [establish, hs]⟩

/-- What a transfer without a connection comes to. -/
def afterFailing (p : Plan) (e : Error) (s : State) : State :=
  (s.emit p.watch (.connection (.failed e.message))).emit p.watch (.transfer ⟨.aborted, 0⟩)

/-- What a transfer with a connection starts from. -/
def afterOpening (p : Plan) (peer : Address) (s : State) : State :=
  (s.emit p.watch (.connection (.opened peer))).emit p.watch (.transfer ⟨.started, 0⟩)

/-- What a transfer with a connection comes to. -/
def afterClosing (p : Plan) (peer : Address) (s : State) : State :=
  (s.emit p.watch (.transfer ⟨.completed, s.moved⟩)).emit p.watch (.connection (.closed peer))

@[simp] theorem told_afterFailing (p : Plan) (e : Error) (s : State) :
    (p.afterFailing e s).told = s.told ++ unopenedEvents e.message := by
  simp [afterFailing, unopenedEvents]

@[simp] theorem told_afterOpening (p : Plan) (peer : Address) (s : State) :
    (p.afterOpening peer s).told =
      s.told ++ [.connection (.opened peer), .transfer ⟨.started, 0⟩] := by
  simp [afterOpening]

@[simp] theorem told_afterClosing (p : Plan) (peer : Address) (s : State) :
    (p.afterClosing peer s).told =
      s.told ++ [.transfer ⟨.completed, s.moved⟩, .connection (.closed peer)] := by
  simp [afterClosing]

@[simp] theorem progress_afterOpening (p : Plan) (peer : Address) (s : State) :
    (p.afterOpening peer s).progress = s.progress := by
  simp [afterOpening]

@[simp] theorem moved_afterOpening (p : Plan) (peer : Address) (s : State) :
    (p.afterOpening peer s).moved = s.moved := by
  simp [afterOpening]

@[simp] theorem events_report (r : Except Error Outcome) (s : State) :
    (report r s).events = s.told := rfl

section

variable {p : Plan} {opening : Opening} {cancelled : Bool} {s : State}

theorem run_of_error {e : Error} (h : p.establish opening (.start cancelled) = (.error e, s)) :
    p.run opening cancelled = report (.error e) (p.afterFailing e s) := by
  rw [run, h]
  rfl

theorem run_of_ok {peer : Address}
    (h : p.establish opening (.start cancelled) = (.ok peer, s)) :
    let ended := p.job.pump p.source p.filter.start (p.afterOpening peer s)
    p.run opening cancelled =
      report (result ended.1 ended.2.moved) (p.afterClosing peer ended.2) := by
  rw [run, h]
  rfl

end

theorem tells_run (p : Plan) (opening : Opening) (cancelled : Bool) :
    (p.run opening cancelled).Tells := by
  obtain ⟨s, htold, hprogress, hmoved, ⟨e, heq, he⟩ | ⟨peer, heq⟩⟩ :=
    p.establish_cases opening (.start cancelled)
  · rw [run_of_error heq]
    exact .unopened e rfl he (by simp [htold])
  · rw [run_of_ok heq]
    let first : List Event := [.connection (.opened peer), .transfer ⟨.started, 0⟩]
    have hbegun : Announcing first (p.afterOpening peer s) :=
      ⟨⟨[], by simp [htold, first], .nil _⟩, by simp [hprogress, State.start,
        Progress.sound_zero], by simp [hmoved, hprogress, State.start, Progress.zero]⟩
    have hended := (keeps_announcing p.job first).pump p.source p.filter.start hbegun
    obtain ⟨totals, htold', hrising⟩ := hended.told_eq
    refine .opened peer totals _ (hended.moved_eq ▸ hrising) ?_ (payload?_result _ _)
    simp [htold', openedEvents, first]

/-- What is announced and what the transfer results in tell the same: that there was no connection
and why, or that there was one, and the payload. -/
theorem events_run_iff (p : Plan) (opening : Opening) (cancelled : Bool) :
    let r := p.run opening cancelled
    (∀ reason, r.events = unopenedEvents reason ↔
        ∃ e, r.result = .error e ∧ e.precedesOpening = true ∧ e.message = reason) ∧
      (∀ last, (∃ peer totals, Rising totals last ∧ r.events = openedEvents peer totals last) ↔
        payload? r.result = some last) ∧
      ((∃ reason, r.events = unopenedEvents reason) ↔
        ¬ ∃ peer totals last, Rising totals last ∧ r.events = openedEvents peer totals last) := by
  intro r
  have htells : r.Tells := p.tells_run opening cancelled
  exact ⟨htells.unopened_iff, htells.opened_iff, htells.unopened_iff_not_opened⟩

end Plan

end FaxClient.Transfer
