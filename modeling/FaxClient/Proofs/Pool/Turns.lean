import FaxClient.Pool.Script
import FaxClient.Proofs.Pool.Course

/-!
# What a schedule does to a pool

A schedule decides which of the things that can happen to a pool happens next, and keeps books of its
own for this.  To the pool itself it does nothing but actions.  So does a script, which does what it
does through its schedule; what is true of every world that a pool can come to is therefore true of
every world that a script meets with.
-/

namespace FaxClient.Pool

open World (Later Reachable)

namespace Schedule

variable {s : Settings} {st : Schedule}

/-! ## What tasks wait for -/

theorem world_arrive (st : Schedule) (line : Line) (a : Arrival) :
    (st.arrive line a).2.world = st.world := by
  cases a <;> rfl

theorem world_dial (st : Schedule) (t : TaskId) : (st.dial t).2.world = st.world := by
  unfold dial
  dsimp only
  split
  · exact world_arrive _ _ _
  · exact world_arrive _ _ _
  · rfl

theorem world_dialed? (st : Schedule) (t : TaskId) : (st.dialed? t).2.world = st.world := by
  unfold dialed?
  split
  · exact world_dial st t
  · rfl
  · exact world_arrive _ _ _

/-- To find out what a task waits for may take a connection from the script, and no more. -/
theorem world_signal? (st : Schedule) (t : TaskId) (task : Task) :
    (st.signal? t task).2.world = st.world := by
  obtain ⟨errand, doing⟩ := task
  cases doing with
  | creating c =>
    cases c with
    | connecting id => exact world_dialed? st t
    | _ => rfl
  | asking =>
    cases errand with
    | ask m command =>
      simp only [signal?]
      split <;> rfl
    | _ => rfl
  | leaving => cases errand <;> rfl
  | _ => rfl

/-! ## Turns -/

theorem later_act (s : Settings) (st : Schedule) (a : Action) :
    Later s st.world (st.act s a).world := by
  unfold act
  cases hact : st.world.act s a with
  | none => exact .refl s st.world
  | some w => exact World.later_of_act hact

theorem later_advance (s : Settings) (st : Schedule) (t : TaskId) :
    Later s st.world (st.advance s t).2.world := by
  unfold advance
  split
  · exact .refl s st.world
  · next task htask =>
    have hsame := world_signal? st t task
    rcases hsignal : st.signal? t task with ⟨signal?, st'⟩
    rw [hsignal] at hsame
    cases signal? with
    | none => exact hsame ▸ .refl s st.world
    | some signal =>
      have hact := later_act s { st' with due := st'.due.erase t } (.advance t signal)
      rw [← hsame]
      exact hact

theorem later_goOn (s : Settings) (t : TaskId) (steps : ℕ) (st : Schedule) :
    Later s st.world (st.goOn s t steps).world := by
  induction steps generalizing st with
  | zero => exact .refl s st.world
  | succ steps ih =>
    have hadvance := later_advance s st t
    rw [goOn]
    rcases hresult : st.advance s t with ⟨goes, st'⟩
    rw [hresult] at hadvance
    cases goes with
    | true => exact hadvance.trans (ih st')
    | false => exact hadvance

theorem later_drain (s : Settings) (turns : ℕ) (st : Schedule) :
    Later s st.world (st.drain s turns).world := by
  induction turns generalizing st with
  | zero => exact .refl s st.world
  | succ turns ih =>
    rw [drain]
    cases hqueue : st.queue with
    | nil => exact .refl s st.world
    | cons t rest => exact (later_goOn s t effort { st with queue := rest }).trans (ih _)

theorem later_passTime? {st' : Schedule} (h : st.passTime? s = some st') :
    Later s st.world st'.world := by
  unfold passTime? at h
  dsimp only at h
  split at h
  · simp at h
  · obtain rfl := Option.some.inj h
    exact later_act s st _

/-- The caller waits: whatever goes on meanwhile, goes on by actions. -/
theorem later_await (s : Settings) (done : World → Bool) (turns : ℕ) (st : Schedule) :
    Later s st.world (st.await s done turns).world := by
  induction turns generalizing st with
  | zero => exact .refl s st.world
  | succ turns ih =>
    -- Once the one in front has gone on, the others take turns, and then time passes.
    have hrest (gone passed : Schedule) (hgone : Later s st.world gone.world)
        (hpassed : Later s (gone.drain s effort).world passed.world) : Later s st.world
        (if done gone.world then gone
        else
          let st := gone.drain s effort
          if (st.front.map st.canGoOn).getD (done st.world) then await s done turns st
          else passed).world := by
      have hdrained : Later s st.world (gone.drain s effort).world :=
        hgone.trans (later_drain s effort gone)
      split
      · exact hgone
      · dsimp only
        split
        · exact hdrained.trans (ih _)
        · exact hdrained.trans hpassed
    rw [await]
    refine hrest _ _ ?_ ?_
    · dsimp only
      split
      · next t hfront => exact later_goOn s t effort st
      · exact .refl s st.world
    · split
      · next st' hst' => exact (later_passTime? hst').trans (ih st')
      · exact .refl s _

/-! ## What the script does to it -/

theorem later_begin (s : Settings) (st : Schedule) (front : Bool) (action : TaskId → Action) :
    Later s st.world (st.begin s front action).2.world := by
  have hact := later_act s
    { st with
      launched := st.launched + 1
      front := if front then some ⟨st.launched + 1⟩ else none } (action ⟨st.launched + 1⟩)
  cases front <;> exact hact

theorem world_letThrough (st : Schedule) (a : Arrival) : (st.letThrough a).world = st.world := by
  unfold letThrough
  split <;> rfl

theorem later_abandon (s : Settings) (st : Schedule) (t : TaskId) :
    Later s st.world (st.abandon s t).world :=
  later_act s { st with dialing := st.dialing.filter (·.task != t) } (.abandon t)

end Schedule

namespace Script

namespace State

variable {s : Settings} {st : State}

def world (st : State) : World := st.schedule.world

theorem later_letGo (s : Settings) (st : State) (id : MemberId) :
    Later s st.world (st.letGo s id).world :=
  Schedule.later_act s st.schedule (.letGo id)

theorem later_hold (s : Settings) (st : State) (name : String) (id : MemberId) :
    Later s st.world (st.hold s name id).world := by
  unfold hold
  cases st.names.lookup name with
  | none => exact .refl s st.world
  | some old => exact later_letGo s st old

theorem later_take (s : Settings) (st : State) (job : Job) (o : Outcome) :
    Later s st.world (st.take s job o).2.world := by
  unfold take
  dsimp only
  cases handed? o with
  | none => exact .refl s st.world
  | some id => exact later_hold s st job.name id

theorem later_begin {front : Bool} {request : Request} {job : Job} {st' : State}
    (h : st.begin s front request = some (job, st')) : Later s st.world st'.world := by
  cases request with
  | call call name =>
    obtain ⟨-, rfl⟩ := Prod.mk.inj (Option.some.inj h)
    exact Schedule.later_begin s st.schedule front (.begin · call)
  | use name use codes =>
    simp only [begin] at h
    split at h
    · simp at h
    · next id hname =>
      obtain ⟨-, rfl⟩ := Prod.mk.inj (Option.some.inj h)
      exact Schedule.later_begin s st.schedule front (.use · id use)

theorem later_await (s : Settings) (st : State) (job : Job) :
    Later s st.world (st.await s job).2.world := by
  let done := fun (w : World) => (w.finished.lookup job.task).isSome
  let waited : State :=
    { st with schedule := { st.schedule.await s done Schedule.effort with front := none } }
  have hwaited : Later s st.world waited.world :=
    Schedule.later_await s done Schedule.effort st.schedule
  unfold await
  dsimp only
  split
  · next o ho => exact hwaited.trans (later_take s waited job o)
  · exact hwaited

theorem later_onMember {name : String} {f : MemberId → Result × State}
    (h : ∀ id, Later s st.world (f id).2.world) : Later s st.world (st.onMember name f).2.world := by
  unfold onMember
  cases st.names.lookup name with
  | none => exact .refl s st.world
  | some id => exact h id

theorem later_onJob {name : String} {f : Job → State → Result × State}
    (h : ∀ (job : Job) (rest : State), rest.schedule = st.schedule →
      Later s st.world (f job rest).2.world) :
    Later s st.world (st.onJob name f).2.world := by
  unfold onJob
  cases st.jobs.lookup name with
  | none => exact .refl s st.world
  | some job => exact h job _ rfl

theorem later_step (s : Settings) (st : State) (step : Step) :
    Later s st.world (st.step s step).2.world := by
  cases step with
  | run request =>
    simp only [State.step]
    split
    · next job st' hbegin => exact (later_begin hbegin).trans (later_await s st' job)
    · exact .refl s st.world
  | launch job request =>
    simp only [State.step]
    split
    · next task st' hbegin =>
      have hbegun : Later s st.world st'.world := later_begin hbegin
      exact hbegun
    · exact .refl s st.world
  | letGo name => exact later_onMember fun id => later_letGo s (st.forget name) id
  | invalidate name => exact later_onMember fun id => Schedule.later_act s st.schedule (.invalidate id)
  | info name => exact later_onMember fun id => .refl s st.world
  | kill line =>
    simp only [State.step]
    split
    · exact Schedule.later_act s st.schedule (.die line)
    · exact .refl s st.world
  | connects cs => exact .refl s st.world
  | letThrough a =>
    have hsame : (st.step s (.letThrough a)).2.world = st.world :=
      st.schedule.world_letThrough a
    exact hsame ▸ .refl s st.world
  | poll name =>
    refine later_onJob fun job rest hrest => ?_
    have hsame : rest.world = st.world := congrArg Schedule.world hrest
    cases st.outcome? job with
    | none => exact hsame ▸ .refl s st.world
    | some o => exact hsame ▸ later_take s rest job o
  | join name =>
    refine later_onJob fun job rest hrest => ?_
    have hsame : rest.world = st.world := congrArg Schedule.world hrest
    exact hsame ▸ later_await s rest job
  | abandon name =>
    refine later_onJob fun job rest hrest => ?_
    have hsame : rest.world = st.world := congrArg Schedule.world hrest
    dsimp only
    split
    · next o ho =>
      cases handed? o with
      | none => exact hsame ▸ .refl s st.world
      | some id => exact hsame ▸ later_letGo s rest id
    · let left : State := { rest with schedule := rest.schedule.abandon s job.task }
      have habandon : Later s st.world left.world :=
        hsame ▸ Schedule.later_abandon s rest.schedule job.task
      cases ((st.schedule.world.task? job.task).bind Task.lent?).map Member.id with
      | none => exact habandon
      | some id => exact habandon.trans (later_letGo s left id)

end State

/-- The reports of a script about a pool that was in this world: in the course of each step the pool
comes to a later one, and the report shows what was asked meanwhile, and the ledger. -/
inductive Reported (s : Settings) : World → List Report → Prop
  | nil (w : World) : Reported s w []
  | cons {w w' : World} {r : Report} {reports : List Report} (hlater : Later s w w')
      (hlog : r.log = entries (w.asked.countP (· == .connect)) (w'.asked.drop w.asked.length))
      (hledger : r.ledger = w'.ledger) (hreports : Reported s w' reports) :
      Reported s w (r :: reports)

theorem reported_run (s : Settings) (st : State) (steps : List Step) :
    Reported s st.world (run s st steps) := by
  induction steps generalizing st with
  | nil => exact .nil st.world
  | cons step steps ih =>
    have hlater : Later s st.world (report s st step).2.world :=
      (State.later_step s st step).trans (Schedule.later_drain s _ _)
    exact .cons hlater rfl rfl (ih _)

theorem Reported.reachable {s : Settings} {w : World} {reports : List Report}
    (h : Reported s w reports) (hw : Reachable s w) :
    ∀ r ∈ reports, ∃ w', Reachable s w' ∧ r.ledger = w'.ledger := by
  induction h with
  | nil => simp
  | cons hlater hlog hledger hreports ih =>
    have hnext := hw.later hlater
    rintro r hr
    rcases List.mem_cons.mp hr with rfl | hr
    · exact ⟨_, hnext, hledger⟩
    · exact ih hnext r hr

/-- A script shows no ledger but of worlds that a pool can come to. -/
theorem reachable_run (s : Settings) (connects : List Connect) (steps : List Step) :
    ∀ r ∈ run s (.start connects) steps, ∃ w, Reachable s w ∧ r.ledger = w.ledger :=
  (reported_run s (.start connects) steps).reachable ⟨[], rfl⟩

end Script

end FaxClient.Pool
