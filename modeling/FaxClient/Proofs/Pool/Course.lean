import FaxClient.Proofs.Pool.Balance

/-!
# The course of a pool

What is true of a pool at one moment may stay true for good.  A run that goes on from a world that
a pool can come to leads to such worlds only, so the books balance all the way, and whatever every
section keeps while they do holds at the end of it.

When a task goes on, what becomes of the ledger, of what is asked, and of the outcomes is read off
its step.
-/

namespace FaxClient.Pool

/-! ## What a step of a task can be -/

/-- What a step of a task makes of the ledger, of the bell and of the task. -/
inductive Task.Stepped (s : Settings) (now : Time) (isOpen : Line → Bool) (l : Ledger) :
    Task → Step → Prop
  | proceed (errand : Errand) :
      Stepped s now isOpen l ⟨errand, .ready⟩ (Task.proceed s now isOpen l errand)
  | create (errand : Errand) (c c' : Creation) (hc : ∀ result, c ≠ .ended result) :
      Stepped s now isOpen l ⟨errand, .creating c⟩ (continuing l errand (.creating c') .none)
  | settle (errand : Errand) (result : Except ExchangeError Member) :
      Stepped s now isOpen l ⟨errand, .creating (.ended result)⟩ (Task.settle s now l errand result)
  | close (errand : Errand) (m : Member) (limit : Time) :
      Stepped s now isOpen l ⟨errand, .discarding m⟩
        (continuing (l.revoke m.id) errand (.closing m limit) .none)
  /-- The session of the member is not open any more. -/
  | discard (errand : Errand) (m : Member) :
      Stepped s now isOpen l ⟨errand, .discarding m⟩ (discarded s now (l.revoke m.id) errand true)
  | closed (errand : Errand) (m : Member) (limit : Time) (success : Bool) :
      Stepped s now isOpen l ⟨errand, .closing m limit⟩ (discarded s now l errand success)
  | wake (errand : Errand) (limit : Time) :
      Stepped s now isOpen l ⟨errand, .parked limit⟩ (continuing l errand .ready .none)
  | answer (m : Member) (command : Option Command) (r : Except ExchangeError Reply) :
      Stepped s now isOpen l ⟨.ask m command, .asking⟩ (finishing l (.answered (noted m r) r) .none)
  | leave (m : Member) (r : Except ExchangeError Unit) :
      Stepped s now isOpen l ⟨.leave m, .leaving⟩ (finishing l (.left m r) .none)

theorem Task.stepped {s : Settings} {now : Time} {isOpen : Line → Bool} {l : Ledger} {t : Task}
    {signal : Signal} {st : Step} (h : t.step s now isOpen l signal = some st) :
    Stepped s now isOpen l t st := by
  obtain ⟨errand, doing⟩ := t
  simp only [step] at h
  split at h
  · obtain rfl := Option.some.inj h
    exact .proceed errand
  · obtain rfl := Option.some.inj h
    exact .create errand _ _ (by simp)
  · obtain rfl := Option.some.inj h
    exact .create errand _ _ (by simp)
  · obtain rfl := Option.some.inj h
    exact .create errand _ _ (by simp)
  · obtain rfl := Option.some.inj h
    exact .create errand _ _ (by simp)
  · split at h
    · obtain rfl := Option.some.inj h
      exact .create errand _ _ (by simp)
    · simp at h
  · obtain rfl := Option.some.inj h
    exact .settle errand _
  · split at h
    · obtain rfl := Option.some.inj h
      exact .close errand _ _
    · obtain rfl := Option.some.inj h
      exact .discard errand _
  · obtain rfl := Option.some.inj h
    exact .closed errand _ _ _
  · split at h
    · obtain rfl := Option.some.inj h
      exact .closed errand _ _ _
    · simp at h
  · obtain rfl := Option.some.inj h
    exact .wake errand _
  · split at h
    · obtain rfl := Option.some.inj h
      exact .wake errand _
    · simp at h
  · split at h
    · obtain rfl := Option.some.inj h
      exact .answer _ _ _
    · simp at h
  · split at h
    · split at h
      · obtain rfl := Option.some.inj h
        exact .answer _ _ _
      · simp at h
    · simp at h
  · split at h
    · obtain rfl := Option.some.inj h
      exact .leave _ _
    · simp at h
  · simp at h

def Progress.outcome? : Progress → Option Outcome
  | .running _ => none
  | .finished o => some o

namespace World

variable {s : Settings} {w w' : World} {t : TaskId} {task : Task}

/-- A pool that is in one world now can be in the other later. -/
def Later (s : Settings) (w w' : World) : Prop := ∃ actions, run s w actions = some w'

theorem run_append (s : Settings) (w : World) (xs ys : List Action) :
    run s w (xs ++ ys) = (run s w xs).bind fun w => run s w ys := by
  induction xs generalizing w with
  | nil => rfl
  | cons a xs ih =>
    have hnext : (fun w => run s w (xs ++ ys)) = fun w => (run s w xs).bind fun w => run s w ys :=
      funext ih
    rw [List.cons_append, run, run, hnext, Option.bind_assoc]

theorem Later.refl (s : Settings) (w : World) : Later s w w := ⟨[], rfl⟩

theorem Later.trans {w₁ w₂ w₃ : World} (h : Later s w₁ w₂) (h' : Later s w₂ w₃) :
    Later s w₁ w₃ := by
  obtain ⟨actions, hrun⟩ := h
  obtain ⟨actions', hrun'⟩ := h'
  exact ⟨actions ++ actions', by rw [run_append, hrun, Option.bind_some, hrun']⟩

theorem later_of_act {a : Action} (h : w.act s a = some w') : Later s w w' :=
  ⟨[a], by rw [run, h, Option.bind_some, run]⟩

theorem Reachable.later (h : Reachable s w) (hlater : Later s w w') : Reachable s w' :=
  Later.trans h hlater

theorem Reachable.orderly (h : Reachable s w) : w.Orderly := by
  obtain ⟨actions, hrun⟩ := h
  exact (run_invariant (P := fun x => x.1.Balanced x.2) Ledger.Balanced.of_section
    (fun hbalanced => hbalanced.placed.hands_nodup) orderly_start Ledger.balanced_empty hrun).1

/-- What every section keeps while the books balance is kept for good. -/
theorem Reachable.stable {P : Ledger × Share → Prop} (h : Reachable s w)
    (hP : P (w.ledger, w.share))
    (hsection : ∀ {x y}, Section s x y → x.1.Balanced x.2 → P x → P y) (hlater : Later s w w') :
    P (w'.ledger, w'.share) := by
  obtain ⟨actions, hrun⟩ := hlater
  have hkept := run_invariant (P := fun x => x.1.Balanced x.2 ∧ P x)
    (fun hxy hx => ⟨hx.1.of_section hxy, hsection hxy hx.1 hx.2⟩)
    (fun hx => hx.1.placed.hands_nodup) h.orderly ⟨h.balanced, hP⟩ hrun
  exact hkept.2.2

/-! ## When a task goes on -/

theorem act_advance {signal : Signal} (h : w.act s (.advance t signal) = some w') :
    ∃ task step, w.task? t = some task ∧
      task.step s w.now w.isOpen w.ledger signal = some step ∧ w' = w.after t signal step := by
  cases acted h with
  | advance t signal task step htask hadmits hstep => exact ⟨task, step, htask, hstep, rfl⟩

theorem act_advance_go {errand : Errand} (htask : w.task? t = some ⟨errand, .ready⟩) :
    w.act s (.advance t .go) =
      some (w.after t .go (Task.proceed s w.now w.isOpen w.ledger errand)) := by
  simp [act, htask, admits, Task.step]

theorem act_advance_of_ne_go {errand : Errand} (htask : w.task? t = some ⟨errand, .ready⟩)
    {signal : Signal} (hsignal : signal ≠ .go) : w.act s (.advance t signal) = none := by
  cases signal with
  | go => exact absurd rfl hsignal
  | _ => simp [act, htask, Task.step]

theorem ledger_after (w : World) (t : TaskId) (signal : Signal) (step : Step) :
    (w.after t signal step).ledger = step.ledger := by
  obtain ⟨ledger, ring, progress⟩ := step
  cases progress with
  | running next => exact (puts_put _ t next).ledger_eq
  | finished o => exact ledger_finish _ t o

theorem finished_put (w : World) (t : TaskId) (task : Task) :
    (w.put t task).finished = w.finished := by
  have hnote : ∀ (w : World) (task : Task), (w.note task).finished = w.finished := by
    intro w task
    unfold note
    split <;> rfl
  unfold put
  split
  · rfl
  · exact hnote _ _

theorem finished_after (w : World) (t : TaskId) (signal : Signal) (step : Step) :
    (w.after t signal step).finished =
      w.finished ++ (step.progress.outcome?.map fun o => (t, o)).toList := by
  obtain ⟨ledger, ring, progress⟩ := step
  cases progress with
  | running next =>
    have hput : (w.after t signal ⟨ledger, ring, .running next⟩).finished = w.finished :=
      finished_put _ t next
    simp [hput, Progress.outcome?]
  | finished o => cases o <;> rfl

/-! ## The task of an id -/

theorem lookup_cons_ne {t' : TaskId} (h : t ≠ t') (task : Task) (tasks : List (TaskId × Task)) :
    ((t', task) :: tasks).lookup t = tasks.lookup t := by
  simp [List.lookup_cons, beq_eq_false_iff_ne.mpr h]

theorem task?_of_tasks (htasks : w.tasks = [(t, task)]) : w.task? t = some task := by
  simp [task?, htasks]

theorem eq_of_task? (htasks : w.tasks = [(t, task)]) {t' : TaskId} {task' : Task}
    (h : w.task? t' = some task') : t' = t ∧ task' = task := by
  by_cases heq : t' = t
  · subst heq
    simpa [task?, htasks, eq_comm] using h
  · simp [task?, htasks, lookup_cons_ne heq] at h

theorem lookup_filter_ne {t' : TaskId} (h : t ≠ t') (tasks : List (TaskId × Task)) :
    (tasks.filter (·.1 != t')).lookup t = tasks.lookup t := by
  induction tasks with
  | nil => rfl
  | cons p tasks ih =>
    obtain ⟨u, task⟩ := p
    by_cases hu : u = t'
    · subst hu
      simp [ih, lookup_cons_ne h]
    · by_cases ht : t = u
      · subst ht
        simp [hu]
      · simp [hu, ih, lookup_cons_ne ht]

theorem lookup_filter_self (t : TaskId) (tasks : List (TaskId × Task)) :
    (tasks.filter (·.1 != t)).lookup t = none := by
  rw [List.lookup_eq_none_iff]
  intro p hp
  have hne : p.1 ≠ t := by simpa using (List.mem_filter.mp hp).2
  simpa [bne_iff_ne] using hne.symm

theorem lookup_tasksWith_ne {t' : TaskId} (h : t ≠ t') (w : World) (task : Task) :
    (w.tasksWith t' task).lookup t = w.task? t := by
  unfold tasksWith task?
  induction w.tasks with
  | nil => rfl
  | cons p tasks ih =>
    obtain ⟨u, old⟩ := p
    by_cases hu : u = t'
    · subst hu
      simp [ih, lookup_cons_ne h]
    · by_cases ht : t = u
      · subst ht
        simp [hu]
      · simp [hu, ih, lookup_cons_ne ht]

theorem lookup_tasksWith_self (w : World) (t : TaskId) (task : Task) :
    (w.tasksWith t task).lookup t = (w.task? t).map fun _ => task := by
  unfold tasksWith task?
  induction w.tasks with
  | nil => rfl
  | cons p tasks ih =>
    obtain ⟨u, old⟩ := p
    by_cases ht : t = u
    · subst ht
      simp
    · have hu : u ≠ t := fun heq => ht heq.symm
      simp [hu, ih, lookup_cons_ne ht]

theorem task?_launch_ne {t' : TaskId} (h : t ≠ t') (w : World) (errand : Errand) :
    (w.launch t' errand).task? t = w.task? t := by
  rw [task?, launch, List.lookup_append, lookup_cons_ne h, List.lookup_nil, Option.or_none, task?]

theorem task?_after_ne {t' : TaskId} (h : t ≠ t') (w : World) (signal : Signal) (step : Step) :
    (w.after t' signal step).task? t = w.task? t := by
  obtain ⟨ledger, ring, progress⟩ := step
  cases progress with
  | running next =>
    obtain ⟨next', htasks, -⟩ := (puts_put { w with
      ledger := ledger
      lines := w.linesAfter signal
      bell := (w.bell.leave t').ring ring } t' next).tasks_eq
    rw [task?, after, htasks]
    exact lookup_tasksWith_ne h _ next'
  | finished o =>
    rw [task?, after, tasks_finish]
    exact lookup_filter_ne h w.tasks

theorem tasks_put (w : World) {task : Task} (h : ∀ limit, task.doing ≠ .parked limit) :
    (w.put t task).tasks = w.tasksWith t task := by
  have hnote : ∀ (w : World) (task : Task), (w.note task).tasks = w.tasks := by
    intro w task
    unfold note
    split <;> rfl
  unfold put
  split
  · next limit hdoing => exact absurd hdoing (h limit)
  · exact hnote _ _

/-- A task that begins to wait for the bell may find a ring pending, and is ready at once; any other
is what it is put as. -/
theorem exists_tasks_put (w : World) (t : TaskId) (task : Task) :
    ∃ task', (w.put t task).tasks = w.tasksWith t task' ∧
      (task' = task ∨
        (∃ limit, task.doing = .parked limit) ∧ task' = { task with doing := .ready }) := by
  by_cases hparked : ∃ limit, task.doing = .parked limit
  · obtain ⟨limit, hdoing⟩ := hparked
    unfold put
    rw [hdoing]
    cases hpending : w.bell.pending with
    | true => exact ⟨_, by simp [Bell.wait, hpending, tasksWith], Or.inr ⟨⟨limit, rfl⟩, rfl⟩⟩
    | false => exact ⟨task, by simp [Bell.wait, hpending, tasksWith], Or.inl rfl⟩
  · exact ⟨task, tasks_put w fun limit hdoing => hparked ⟨limit, hdoing⟩, Or.inl rfl⟩

theorem tasks_after (w : World) (t : TaskId) (signal : Signal) {step : Step} {next : Task}
    (hstep : step.progress = .running next) (hnext : ∀ limit, next.doing ≠ .parked limit) :
    (w.after t signal step).tasks = w.tasksWith t next := by
  simp only [after, hstep, tasks_put _ hnext]
  rfl

theorem task?_after_running (htask : w.task? t = some task) (signal : Signal) {step : Step}
    {next : Task} (hstep : step.progress = .running next)
    (hnext : ∀ limit, next.doing ≠ .parked limit) :
    (w.after t signal step).task? t = some next := by
  rw [task?, tasks_after w t signal hstep hnext, lookup_tasksWith_self]
  exact congrArg (Option.map _) htask

theorem task?_after_finished (w : World) (t : TaskId) (signal : Signal) {step : Step} {o : Outcome}
    (hstep : step.progress = .finished o) : (w.after t signal step).task? t = none := by
  simp only [task?, after, hstep, tasks_finish]
  exact lookup_filter_self t _

end World

/-- The task that an action begins. -/
def Action.launches? : Action → Option TaskId
  | .begin t _ | .use t _ _ => some t
  | _ => none

namespace World

variable {s : Settings} {w w' : World} {t : TaskId}

/-- An action that neither begins a task nor takes a step of it leaves it as it is, or abandons
it. -/
theorem task?_act {a : Action} (h : w.act s a = some w') (hlaunch : a.launches? ≠ some t)
    (hadvance : ∀ signal, a ≠ .advance t signal) :
    w'.task? t = w.task? t ∨ w'.task? t = none := by
  cases acted h with
  | begin t' call hfresh =>
    have hne : t ≠ t' := fun heq => hlaunch (congrArg some heq.symm)
    exact Or.inl (task?_launch_ne hne w _)
  | use t' id use m hfresh hm =>
    have hne : t ≠ t' := fun heq => hlaunch (congrArg some heq.symm)
    exact Or.inl (task?_launch_ne hne (w.notHolding id) _)
  | advance t' signal task step htask hadmits hstep =>
    have hne : t ≠ t' := fun heq => hadvance signal (heq ▸ rfl)
    exact Or.inl (task?_after_ne hne w signal step)
  | abandon t' task htask =>
    by_cases hne : t = t'
    · subst hne
      exact Or.inr (lookup_filter_self t w.tasks)
    · exact Or.inl (lookup_filter_ne hne w.tasks)
  | _ => exact Or.inl rfl

end World

end FaxClient.Pool
