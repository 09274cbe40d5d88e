import FaxClient.Proofs.Pool.Course

/-!
# How a call for a member gives up

A call for a member looks for an idle one.  When it finds none, it looks at the clock.  Once its
deadline has come it gives up; until then it tries to create a member and looks again, at once if it
has added one, and otherwise after a wait.  So what a call has found out when it gives up is a
sequence of rounds, each of which is a look before the deadline and a try to create a member.

A member that a call has added may be taken by another before the call looks again, so it may give
up although its last try went well.  And since the look at the clock comes before the first try, a
call whose deadline has come when it first finds nobody never gets to try, even if there is room.
-/

namespace FaxClient.Pool

inductive Trial where
  | full
  | failed (e : ExchangeError)
  /-- The pool was stopped meanwhile. -/
  | unwanted
  | added (id : MemberId)

/-- What a call for a member finds out. -/
inductive Finding where
  /-- There was no idle member at this time. -/
  | nobody (now : Time)
  | tried (outcome : Trial)

def Ledger.Found.isNothing : Ledger.Found → Bool
  | .nothing => true
  | _ => false

/-- What a call for a member finds out by the next step of its task. -/
def Task.finding? (s : Settings) (now : Time) (isOpen : Line → Bool) (l : Ledger) (t : Task) :
    Option Finding :=
  match t.doing, t.errand with
  | .ready, .acquire _ => if (l.take isOpen).1.isNothing then some (.nobody now) else none
  | .ready, .grow _ => if l.atCapacity s then some (.tried .full) else none
  | .creating (.ended (.error e)), .grow _ => some (.tried (.failed e))
  | .creating (.ended (.ok m)), .grow _ =>
    some (.tried (if l.stopped then .unwanted else .added m.id))
  | _, _ => none

/-- The rounds of a call before its deadline. -/
inductive Rounds (deadline : Time) : List Finding → Prop
  | none : Rounds deadline []
  | round {past : List Finding} {now : Time} (outcome : Trial) (h : Rounds deadline past)
      (hnow : now < deadline) : Rounds deadline (past ++ [.nobody now, .tried outcome])

theorem Ledger.take_eq_nothing {l l' : Ledger} {isOpen : Line → Bool}
    (h : l.take isOpen = (.nothing, l')) : l.stopped = false ∧ l.idle = [] := by
  unfold take at h
  split at h
  · simp at h
  · next hopen =>
    split at h
    · next hidle => exact ⟨by simpa using hopen, hidle⟩
    · dsimp only at h
      split at h <;> simp at h

/-- A call that has found nobody before has tried since then. -/
theorem Rounds.exists_tried {deadline : Time} {past : List Finding} (h : Rounds deadline past)
    (hpast : past ≠ []) : ∃ earlier now outcome,
      past = earlier ++ [.nobody now, .tried outcome] ∧ now < deadline := by
  cases h with
  | none => exact absurd rfl hpast
  | round outcome h hnow => exact ⟨_, _, outcome, rfl, hnow⟩

/-! ## The task of a call -/

/-- A task that looks for a member until a deadline, and has found this out so far. -/
inductive Task.Seeks (deadline : Time) : List Finding → Task → Prop
  | looking {past : List Finding} {doing : Doing} (h : Rounds deadline past)
      (hdoing : ∀ c, doing ≠ .creating c) : Seeks deadline past ⟨.acquire deadline, doing⟩
  /-- It found nobody, and tries to create a member. -/
  | trying {past : List Finding} {now : Time} {doing : Doing} (h : Rounds deadline past)
      (hnow : now < deadline) (hdoing : doing = .ready ∨ ∃ c, doing = .creating c) :
      Seeks deadline (past ++ [.nobody now]) ⟨.grow deadline, doing⟩
  /-- The member that it has created is not wanted any more. -/
  | discarding {past : List Finding} {doing : Doing} (h : Rounds deadline past)
      (hdoing : (∃ m, doing = .discarding m) ∨ ∃ m limit, doing = .closing m limit) :
      Seeks deadline past ⟨.grow deadline, doing⟩

structure GivesUp (s : Settings) (now : Time) (l : Ledger) (deadline : Time) (limit : Duration) :
    Prop where
  limit_eq : limit = s.blockingDuration
  deadline_le : deadline ≤ now
  idle_eq : l.idle = []
  not_stopped : l.stopped = false

namespace Task

variable {s : Settings} {now deadline : Time} {isOpen : Line → Bool} {l : Ledger}
  {past : List Finding} {t : Task} {signal : Signal} {st : Step}

/-- What a step of a call leads to: the call goes on, or is over, and if it gives up, then at its
deadline. -/
structure SeeksOn (s : Settings) (now : Time) (l : Ledger) (deadline : Time)
    (past later : List Finding) (progress : Progress) : Prop where
  running : ∀ t, progress = .running t → t.Seeks deadline later
  refused : ∀ limit, progress = .finished (.refused (.exhausted limit)) →
    GivesUp s now l deadline limit ∧ Rounds deadline past

namespace SeeksOn

variable {later : List Finding} {progress : Progress}

theorem of_running {next : Task} (h : next.Seeks deadline later) :
    SeeksOn s now l deadline past later (.running next) where
  running := by
    rintro t ⟨⟩
    exact h
  refused := by simp

theorem of_finished {o : Outcome} (ho : ∀ limit, o ≠ .refused (.exhausted limit)) :
    SeeksOn s now l deadline past later (.finished o) where
  running := by simp
  refused := by
    intro limit hfinished
    exact absurd (Progress.finished.inj hfinished) (ho limit)

end SeeksOn

theorem seeks_of_round {doing : Doing} {τ : Time} (h : Rounds deadline past) (hτ : τ < deadline)
    (outcome : Trial) (hdoing : ∀ c, doing ≠ .creating c) :
    Task.Seeks deadline (past ++ [.nobody τ] ++ [.tried outcome]) ⟨.acquire deadline, doing⟩ := by
  rw [List.append_assoc]
  exact .looking (h.round outcome hτ) hdoing

theorem seeksOn_look (h : Rounds deadline past) :
    SeeksOn s now l deadline past
      (past ++ (finding? s now isOpen l ⟨.acquire deadline, .ready⟩).toList)
      (proceed s now isOpen l (.acquire deadline)).progress := by
  rcases htake : l.take isOpen with ⟨found, l'⟩
  cases found with
  | stopped =>
    simp only [proceed, htake, finding?]
    exact .of_finished (by simp)
  | ready m =>
    simp only [proceed, htake, finding?]
    exact .of_finished (by simp)
  | stale m =>
    simp only [proceed, htake, finding?, Ledger.Found.isNothing, Bool.false_eq_true, if_false,
      Option.toList_none, List.append_nil]
    exact .of_running (.looking h (by simp))
  | nothing =>
    simp only [proceed, htake, finding?, Ledger.Found.isNothing, if_true, Option.toList_some]
    split
    · next hdeadline =>
      refine ⟨by simp [finishing], ?_⟩
      intro limit hfinished
      obtain ⟨hopen, hidle⟩ := Ledger.take_eq_nothing htake
      obtain rfl : s.blockingDuration = limit := by simpa [finishing] using hfinished
      exact ⟨⟨rfl, hdeadline, hidle, hopen⟩, h⟩
    · next hearly => exact .of_running (.trying h (Nat.lt_of_not_le hearly) (Or.inl rfl))

theorem seeksOn_tryCreate {τ : Time} (h : Rounds deadline past) (hτ : τ < deadline) :
    SeeksOn s now l deadline (past ++ [.nobody τ])
      (past ++ [.nobody τ] ++ (finding? s now isOpen l ⟨.grow deadline, .ready⟩).toList)
      (tryCreate s now l (.grow deadline)).progress := by
  cases hfull : l.atCapacity s with
  | true =>
    simp only [tryCreate, Ledger.reserve, hfull, if_true, finding?, Option.toList_some]
    exact .of_running (seeks_of_round h hτ .full (by simp))
  | false =>
    simp only [tryCreate, Ledger.reserve, hfull, Bool.false_eq_true, if_false, finding?,
      Option.toList_none, List.append_nil]
    exact .of_running (.trying h hτ (Or.inr ⟨_, rfl⟩))

theorem seeksOn_settle {τ : Time} {result : Except ExchangeError Member} (h : Rounds deadline past)
    (hτ : τ < deadline) : SeeksOn s now l deadline (past ++ [.nobody τ])
      (past ++ [.nobody τ] ++
        (finding? s now isOpen l ⟨.grow deadline, .creating (.ended result)⟩).toList)
      (settle s now l (.grow deadline) result).progress := by
  cases result with
  | error e => exact .of_running (seeks_of_round h hτ (.failed e) (by simp))
  | ok m =>
    cases hstopped : l.stopped with
    | true =>
      have hpublish : l.settle.publish m = none := by
        simp [Ledger.publish, Ledger.settle, hstopped]
      simp only [settle, hpublish, finding?, hstopped, if_true, Option.toList_some,
        List.append_assoc]
      exact .of_running (.discarding (h.round .unwanted hτ) (Or.inl ⟨m, rfl⟩))
    | false =>
      cases hpublish : l.settle.publish m with
      | none => simp [Ledger.publish, Ledger.settle, hstopped] at hpublish
      | some l' =>
        simp only [settle, hpublish, finding?, hstopped, Bool.false_eq_true, if_false,
          Option.toList_some]
        exact .of_running (seeks_of_round h hτ (.added m.id) (by simp))

theorem Seeks.step (h : t.Seeks deadline past) (hstep : t.step s now isOpen l signal = some st) :
    SeeksOn s now l deadline past (past ++ (t.finding? s now isOpen l).toList) st.progress := by
  have hnothing (hnone : t.finding? s now isOpen l = none)
      (hrunning : SeeksOn s now l deadline past past st.progress) :
      SeeksOn s now l deadline past (past ++ (t.finding? s now isOpen l).toList) st.progress := by
    simpa [hnone] using hrunning
  cases h with
  | looking h hdoing =>
    cases stepped hstep with
    | proceed errand => exact seeksOn_look h
    | create errand c c' hc => exact absurd rfl (hdoing c)
    | settle errand result => exact absurd rfl (hdoing _)
    | close errand m limit => exact hnothing rfl (.of_running (.looking h (by simp)))
    | discard errand m => exact hnothing rfl (.of_running (.looking h (by simp)))
    | closed errand m limit success => exact hnothing rfl (.of_running (.looking h (by simp)))
    | wake errand limit => exact hnothing rfl (.of_running (.looking h (by simp)))
  | trying h hnow hdoing =>
    cases stepped hstep with
    | proceed errand => exact seeksOn_tryCreate h hnow
    | create errand c c' hc =>
      refine hnothing ?_ (.of_running (.trying h hnow (Or.inr ⟨_, rfl⟩)))
      cases c with
      | ended result => exact absurd rfl (hc result)
      | _ => rfl
    | settle errand result => exact seeksOn_settle h hnow
    | _ => simp at hdoing
  | discarding h hdoing =>
    cases stepped hstep with
    | close errand m limit =>
      exact hnothing rfl (.of_running (.discarding h (Or.inr ⟨_, _, rfl⟩)))
    | discard errand m => exact hnothing rfl (.of_running (.looking h (by simp)))
    | closed errand m limit success => exact hnothing rfl (.of_running (.looking h (by simp)))
    | _ => simp at hdoing

theorem Seeks.ready_of_parked {limit : Time} (h : t.Seeks deadline past)
    (hdoing : t.doing = .parked limit) : Seeks deadline past { t with doing := .ready } := by
  cases h with
  | looking h _ => exact .looking h (by simp)
  | trying h hnow hbusy => simp_all
  | discarding h hbusy => simp_all

end Task

namespace World

variable {s : Settings} {w w' : World} {t : TaskId} {deadline : Time} {past : List Finding}

def finding? (s : Settings) (w : World) (t : TaskId) : Action → Option Finding
  | .advance t' _ =>
    if t' = t then (w.task? t).bind fun task => task.finding? s w.now w.isOpen w.ledger else none
  | _ => none

/-- What a task finds out in the course of a run. -/
def findings (s : Settings) (t : TaskId) : World → List Action → List Finding
  | _, [] => []
  | w, a :: rest =>
    (w.finding? s t a).toList ++ ((w.act s a).map fun next => findings s t next rest).getD []

/-- Whatever the task is doing, if it is not over or abandoned: it seeks a member. -/
def Seeks (w : World) (t : TaskId) (deadline : Time) (past : List Finding) : Prop :=
  ∀ task, w.task? t = some task → task.Seeks deadline past

theorem seeks_after {task : Task} {signal : Signal} {step : Step} {later : List Finding}
    (htask : w.task? t = some task)
    (h : Task.SeeksOn s w.now w.ledger deadline past later step.progress) :
    (w.after t signal step).Seeks t deadline later := by
  intro next hnext
  obtain ⟨ledger, ring, progress⟩ := step
  cases progress with
  | running task' =>
    obtain ⟨next', hput, hcases⟩ := exists_tasks_put { w with
      ledger := ledger
      lines := w.linesAfter signal
      bell := (w.bell.leave t).ring ring } t task'
    obtain rfl : next' = next := by
      rw [task?, after, hput, lookup_tasksWith_self] at hnext
      have hlookup : w.tasks.lookup t = some task := htask
      simpa [task?, hlookup] using hnext
    have hseeks := h.running task' rfl
    rcases hcases with rfl | ⟨⟨limit, hparked⟩, rfl⟩
    · exact hseeks
    · exact hseeks.ready_of_parked hparked
  | finished o =>
    have hended : (Step.mk ledger ring (.finished o)).progress = .finished o := rfl
    rw [task?_after_finished w t signal hended] at hnext
    simp at hnext

theorem Seeks.act {a : Action} (h : w.Seeks t deadline past) (hact : w.act s a = some w')
    (hlaunch : a.launches? ≠ some t) :
    w'.Seeks t deadline (past ++ (w.finding? s t a).toList) := by
  by_cases hadvance : ∃ signal, a = .advance t signal
  · obtain ⟨signal, rfl⟩ := hadvance
    obtain ⟨task, step, htask, hstep, rfl⟩ := act_advance hact
    have hfinding : w.finding? s t (.advance t signal) =
        task.finding? s w.now w.isOpen w.ledger := by
      simp [finding?, htask]
    rw [hfinding]
    exact seeks_after htask ((h task htask).step hstep)
  · have hnone : w.finding? s t a = none := by
      cases a with
      | advance t' signal =>
        have hne : t' ≠ t := fun heq => hadvance ⟨signal, by rw [heq]⟩
        simp [finding?, hne]
      | _ => rfl
    rw [hnone, Option.toList_none, List.append_nil]
    intro task htask
    rcases task?_act hact hlaunch (fun signal ha => hadvance ⟨signal, ha⟩) with hsame | hgone
    · exact h task (hsame ▸ htask)
    · simp [hgone] at htask

theorem Seeks.run {actions : List Action} (h : w.Seeks t deadline past)
    (hrun : World.run s w actions = some w') (hlaunch : ∀ a ∈ actions, a.launches? ≠ some t) :
    w'.Seeks t deadline (past ++ findings s t w actions) := by
  induction actions generalizing w past with
  | nil =>
    obtain rfl := Option.some.inj hrun
    simpa [findings] using h
  | cons a actions ih =>
    obtain ⟨next, hact, hrest⟩ := Option.bind_eq_some_iff.mp hrun
    have hnext := h.act hact (hlaunch a List.mem_cons_self)
    have hlast := ih hnext hrest fun b hb => hlaunch b (List.mem_cons_of_mem a hb)
    simpa [findings, hact] using hlast

theorem task?_launch_self (hfresh : w.isFresh t = true) (errand : Errand) :
    (w.launch t errand).task? t = some ⟨errand, .ready⟩ := by
  simp [task?, launch, List.lookup_append, lookup_of_isFresh hfresh]

theorem progress_of_finished {signal : Signal} {step : Step} {o : Outcome}
    (h : (w.after t signal step).finished = w.finished ++ [(t, o)]) :
    step.progress = .finished o := by
  rw [finished_after, List.append_cancel_left_eq] at h
  cases hprogress : step.progress with
  | running next => simp [hprogress, Progress.outcome?] at h
  | finished o' =>
    obtain rfl : o' = o := by simpa [hprogress, Progress.outcome?] using h
    rfl

/-- A call for a member that gives up does so at its deadline, looking at a pool that is not stopped
and has nobody idle.  Whenever it had found nobody before, that was before the deadline, and it tried
to create a member; so if it had found nobody before, its last try is the last that it found out. -/
theorem gives_up_of_exhausted {called last ended : World} {actions : List Action} {signal : Signal}
    {limit : Duration} (hcall : w.act s (.begin t .acquire) = some called)
    (hrun : run s called actions = some last) (hlaunch : ∀ a ∈ actions, a.launches? ≠ some t)
    (hended : last.act s (.advance t signal) = some ended)
    (hexhausted : ended.finished = last.finished ++ [(t, .refused (.exhausted limit))]) :
    GivesUp s last.now last.ledger (w.now + s.blockingTimeout) limit ∧
      Rounds (w.now + s.blockingTimeout) (findings s t called actions) ∧
        (findings s t called actions ≠ [] → ∃ earlier now outcome,
          findings s t called actions = earlier ++ [.nobody now, .tried outcome] ∧
            now < w.now + s.blockingTimeout) := by
  have hcalled : called.Seeks t (w.now + s.blockingTimeout) [] := by
    cases acted hcall with
    | begin t call hfresh =>
      intro task htask
      rw [task?_launch_self hfresh] at htask
      obtain rfl := Option.some.inj htask
      exact .looking .none (by simp)
  have hlast := hcalled.run hrun hlaunch
  rw [List.nil_append] at hlast
  obtain ⟨task, step, htask, hstep, rfl⟩ := act_advance hended
  obtain ⟨hgivesUp, hrounds⟩ :=
    ((hlast task htask).step hstep).refused limit (progress_of_finished hexhausted)
  exact ⟨hgivesUp, hrounds, hrounds.exists_tried⟩

/-- A call creates a member, another call takes it, and the deadline comes. -/
def robbing : List Action :=
  [.advance ⟨1⟩ .go, .advance ⟨1⟩ .go, .advance ⟨1⟩ (.connected ⟨1⟩), .advance ⟨1⟩ .go,
    .begin ⟨2⟩ .acquire, .advance ⟨2⟩ .go, .wait 30000]

def calling : World := { start with tasks := [(⟨1⟩, ⟨.acquire 30000, .ready⟩)] }

def robbed : World where
  now := 30000
  ledger := ⟨[], [⟨1⟩], [⟨1⟩], [], 0, false, 1, [], ⟨2⟩⟩
  bell := ⟨true, [], [], []⟩
  tasks := [(⟨1⟩, ⟨.acquire 30000, .ready⟩)]
  finished := [(⟨2⟩, .acquired ⟨⟨1⟩, ⟨1⟩, true, true⟩)]
  held := [⟨⟨1⟩, ⟨1⟩, true, true⟩]
  lines := [⟨1⟩]
  dead := []
  asked := [.connect]

theorem run_robbing : run .default calling robbing = some robbed := rfl

theorem gives_up_robbed : run .default calling robbing = some robbed ∧
    GivesUp .default robbed.now robbed.ledger 30000 (Settings.blockingDuration .default) ∧
      robbed.ledger.atCapacity .default = false ∧
        ∃ earlier now outcome,
          findings .default ⟨1⟩ calling robbing = earlier ++ [.nobody now, .tried outcome] ∧
            now < 30000 := by
  have hcall : start.act .default (.begin ⟨1⟩ .acquire) = some calling := rfl
  have hlaunch : ∀ a ∈ robbing, a.launches? ≠ some ⟨1⟩ := by
    simp [robbing, Action.launches?]
  have hended : robbed.act .default (.advance ⟨1⟩ .go) = some (robbed.after ⟨1⟩ .go
      (Task.proceed .default robbed.now robbed.isOpen robbed.ledger (.acquire 30000))) := rfl
  have hfound : findings .default ⟨1⟩ calling robbing = [.nobody 0, .tried (.added ⟨1⟩)] := rfl
  obtain ⟨hgivesUp, -, htried⟩ := gives_up_of_exhausted hcall run_robbing hlaunch hended rfl
  exact ⟨run_robbing, hgivesUp, rfl, htried (by simp [hfound])⟩

def impatient : Settings := { Settings.default with blockingTimeout := 0 }

/-- A call that has no time at all finds nobody in an empty pool, and gives up.  There is room for a
member, and the call has not tried to create one. -/
theorem exhausted_untried : ∃ called ended,
    start.act impatient (.begin ⟨1⟩ .acquire) = some called ∧
      called.act impatient (.advance ⟨1⟩ .go) = some ended ∧
        ended.finished = [(⟨1⟩, .refused (.exhausted impatient.blockingDuration))] ∧
          called.ledger.atCapacity impatient = false ∧ findings impatient ⟨1⟩ called [] = [] ∧
            ended.asked = [] :=
  ⟨_, _, rfl, rfl, rfl, rfl, rfl, rfl⟩

end World

end FaxClient.Pool
