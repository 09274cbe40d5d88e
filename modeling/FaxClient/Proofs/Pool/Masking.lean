import FaxClient.Pool.World
import Mathlib

/-!
# Pools with their secrets masked

The only secrets in a pool are the passwords that a new session logs in with.  They stand in the
requests of a creation that is logging in, and in the commands that were sent for them.  To mask
them there and in the settings makes no difference to anything else: whatever happens to a pool
happens to the masked pool in the same way, and what comes of it is the same but for the mask.
-/

namespace FaxClient

/-- A command as it is shown: a secret is hidden behind the mask. -/
def Command.masked (c : Command) : Command :=
  if c.isSecret then { c with args := c.args.map fun _ => Pool.Settings.mask } else c

theorem Command.display_masked (c : Command) : c.masked.display = c.display := by
  obtain ⟨verb, args⟩ := c
  by_cases hsecret : verb = "PASS" ∨ verb = "ADMIN"
  · cases args <;> simp [masked, display, isSecret, hsecret]
  · simp [masked, isSecret, hsecret]

@[simp] theorem Command.masked_masked (c : Command) : c.masked.masked = c.masked := by
  obtain ⟨verb, args⟩ := c
  by_cases hsecret : verb = "PASS" ∨ verb = "ADMIN"
  · cases args <;> simp [masked, isSecret, hsecret]
  · simp [masked, isSecret, hsecret]

namespace Pool

/-! ## Masks -/

namespace Settings

def masked (s : Settings) : Settings :=
  { s with
    password := s.password.map fun _ => mask
    adminPassword := s.adminPassword.map fun _ => mask }

theorem display_masked (s : Settings) : s.masked.display = s.display := by
  simp [masked, display, Option.map_map, Function.comp_def]

end Settings

namespace Login

def masked : Login → Login
  | .user name => .user name
  | .pass _ => .pass Settings.mask
  | .admin _ => .admin Settings.mask
  | .tzone zone => .tzone zone

@[simp] theorem masked_masked (r : Login) : r.masked.masked = r.masked := by
  cases r <;> rfl

theorem command_masked (r : Login) : r.masked.command = r.command.masked := by
  cases r <;> simp [masked, command, Command.masked, Command.isSecret]

@[simp] theorem accepted_masked (r : Login) : r.masked.accepted = r.accepted := by
  cases r <;> rfl

theorem requests_masked (s : Settings) : requests s.masked = (requests s).map masked := by
  cases hname : s.username <;> cases hadmin : s.adminPassword <;> cases hzone : s.timezone <;>
    simp [requests, Settings.masked, masked, hname, hadmin, hzone]

theorem next_masked (s : Settings) (r : Login) (rest : List Login) (reply : Reply) :
    next s.masked r.masked (rest.map masked) reply = (next s r rest reply).map (·.map masked) := by
  unfold next
  rw [accepted_masked]
  cases hreply : reply.expect r.accepted with
  | error e => rfl
  | ok reply' =>
    cases r with
    | user name =>
      by_cases hwanted : reply'.code = Control.passwordWanted
      · cases hpassword : s.password <;>
          simp [masked, bind, Except.bind, hwanted, hpassword, Settings.masked, Except.map, pure,
            Except.pure]
      · simp [masked, bind, Except.bind, hwanted, Except.map, pure, Except.pure]
    | _ => rfl

end Login

def Creation.masked : Creation → Creation
  | .loggingIn m request rest => .loggingIn m request.masked (rest.map Login.masked)
  | c => c

def Doing.masked : Doing → Doing
  | .creating c => .creating c.masked
  | d => d

def Task.masked (t : Task) : Task := { t with doing := t.doing.masked }

def Progress.masked : Progress → Progress
  | .running t => .running t.masked
  | .finished o => .finished o

def Step.masked (st : Step) : Step := { st with progress := st.progress.masked }

def Query.masked : Query → Query
  | .send line command => .send line command.masked
  | q => q

def World.masked (w : World) : World :=
  { w with
    tasks := w.tasks.map fun p => (p.1, p.2.masked)
    asked := w.asked.map Query.masked }

/-! ## A step -/

theorem loginWith_masked (m : Member) (rest : List Login) :
    Task.loginWith m (rest.map Login.masked) = (Task.loginWith m rest).masked := by
  cases rest <;> rfl

namespace Task

variable (s : Settings) (now : Time) (isOpen : Line → Bool) (l : Ledger)

theorem proceed_masked (errand : Errand) :
    proceed s.masked now isOpen l errand = proceed s now isOpen l errand := by
  cases errand <;> rfl

theorem settle_masked (errand : Errand) (result : Except ExchangeError Member) :
    settle s.masked now l errand result = settle s now l errand result := by
  cases result <;> rfl

theorem discarded_masked (errand : Errand) (success : Bool) :
    discarded s.masked now l errand success = discarded s now l errand success := by
  cases errand <;> rfl

/-- What the answer to a request of a login leads to. -/
theorem step_loggingIn_masked (errand : Errand) (m : Member) (request : Login) (rest : List Login)
    (signal : Signal) :
    (step s.masked now isOpen l ⟨errand, .creating (.loggingIn m request.masked
      (rest.map Login.masked))⟩ signal).map Step.masked =
        (step s now isOpen l ⟨errand, .creating (.loggingIn m request rest)⟩ signal).map
          Step.masked := by
  cases signal with
  | replied r =>
    cases r with
    | error e => rfl
    | ok reply =>
      simp only [step, Except.bind, Login.next_masked]
      cases Login.next s request rest reply with
      | error e => rfl
      | ok rest' =>
        simp only [Except.map, loginWith_masked, Option.map_some]
        cases rest' <;> simp [Step.masked, continuing, Progress.masked, Task.masked, Doing.masked,
          Creation.masked, loginWith, Function.comp_def]
  | _ => rfl

theorem step_masked (t : Task) (signal : Signal) :
    (t.masked.step s.masked now isOpen l signal).map Step.masked =
      (t.step s now isOpen l signal).map Step.masked := by
  obtain ⟨errand, doing⟩ := t
  cases doing with
  | creating c =>
    cases c with
    | loggingIn m request rest =>
      exact step_loggingIn_masked s now isOpen l errand m request rest signal
    | connecting id =>
      cases signal with
      | connected line =>
        simp only [masked, Doing.masked, Creation.masked, step, Login.requests_masked,
          loginWith_masked, Option.map_some]
        cases Login.requests s <;> simp [Step.masked, continuing, Progress.masked, Task.masked,
          Doing.masked, Creation.masked, loginWith, Function.comp_def]
      | _ => rfl
    | closing m e limit => cases signal <;> rfl
    | ended result =>
      cases signal with
      | go =>
        simp only [masked, Doing.masked, Creation.masked, step, settle_masked]
      | _ => rfl
  | ready =>
    cases signal with
    | go => simp only [masked, Doing.masked, step, proceed_masked]
    | _ => rfl
  | discarding m =>
    cases signal with
    | go => simp only [masked, Doing.masked, step, discarded_masked]
    | _ => rfl
  | closing m limit =>
    cases signal with
    | closed r => simp only [masked, Doing.masked, step, discarded_masked]
    | late => simp only [masked, Doing.masked, step, discarded_masked]
    | _ => rfl
  | _ => cases signal <;> rfl

theorem query?_masked (t : Task) :
    t.masked.query?.map Query.masked = t.query?.map Query.masked := by
  obtain ⟨errand, doing⟩ := t
  cases doing with
  | creating c =>
    cases c with
    | loggingIn m request rest =>
      simp [masked, Doing.masked, Creation.masked, query?, Query.masked, Login.command_masked]
    | _ => rfl
  | _ => rfl

end Task

/-! ## A world -/

namespace World

variable {s s' : Settings} {w w' : World} {t : TaskId} {task task' : Task}

theorem lookup_map_masked (t : TaskId) (tasks : List (TaskId × Task)) :
    (tasks.map fun p => (p.1, p.2.masked)).lookup t = (tasks.lookup t).map Task.masked := by
  induction tasks with
  | nil => rfl
  | cons p tasks ih =>
    obtain ⟨u, task⟩ := p
    by_cases ht : t = u
    · subst ht
      simp
    · simpa [List.lookup_cons, beq_eq_false_iff_ne.mpr ht] using ih

theorem task?_congr (h : w.masked = w'.masked) (t : TaskId) :
    (w.task? t).map Task.masked = (w'.task? t).map Task.masked := by
  rw [task?, task?, ← lookup_map_masked, ← lookup_map_masked]
  exact congrArg (List.lookup t) (World.mk.inj h).2.2.2.1

/-- Two worlds that are the same but for their secrets. -/
theorem exists_of_masked_eq (h : w.masked = w'.masked) :
    ∃ tasks asked, w' = { w with tasks := tasks, asked := asked } ∧
      (w.tasks.map fun p => (p.1, p.2.masked)) = (tasks.map fun p => (p.1, p.2.masked)) ∧
        w.asked.map Query.masked = asked.map Query.masked := by
  refine ⟨w'.tasks, w'.asked, ?_, ?_, ?_⟩
  · cases w
    cases w'
    simp_all [masked]
  · exact (World.mk.inj h).2.2.2.1
  · exact (World.mk.inj h).2.2.2.2.2.2.2.2

theorem isFresh_congr {tasks : List (TaskId × Task)} {asked : List Query}
    (h : (w.tasks.map fun p => (p.1, p.2.masked)) = (tasks.map fun p => (p.1, p.2.masked)))
    (t : TaskId) : isFresh { w with tasks := tasks, asked := asked } t = w.isFresh t := by
  have hlookup := congrArg Option.isNone (congrArg (List.lookup t) h)
  rw [lookup_map_masked, lookup_map_masked, Option.isNone_map, Option.isNone_map] at hlookup
  exact congrArg (· && _) hlookup.symm

theorem note_congr (h : w.masked = w'.masked) (htask : task.masked = task'.masked) :
    (w.note task).masked = (w'.note task').masked := by
  obtain ⟨tasks, asked, rfl, htasks, hasked⟩ := exists_of_masked_eq h
  have hquery : task.query?.map Query.masked = task'.query?.map Query.masked := by
    rw [← task.query?_masked, ← task'.query?_masked, htask]
  unfold note
  cases hq : task.query? with
  | none =>
    have hq' : task'.query? = none := by simpa [hq] using hquery.symm
    rw [hq']
    exact h
  | some q =>
    rw [hq, Option.map_some, eq_comm, Option.map_eq_some_iff] at hquery
    obtain ⟨q', hq', hmasked⟩ := hquery
    rw [hq']
    -- Both ask the same of the same session, but perhaps with another secret.
    cases q <;> cases q' <;> simp_all [masked, Query.masked]

theorem masked_eq_of
    (hrest : { w with tasks := [], asked := [] } = { w' with tasks := [], asked := [] })
    (htasks : (w.tasks.map fun p => (p.1, p.2.masked)) = (w'.tasks.map fun p => (p.1, p.2.masked)))
    (hasked : w.asked.map Query.masked = w'.asked.map Query.masked) : w.masked = w'.masked := by
  cases w
  cases w'
  simp_all [masked]

theorem map_replace_congr {tasks tasks' : List (TaskId × Task)}
    (h : (tasks.map fun p => (p.1, p.2.masked)) = (tasks'.map fun p => (p.1, p.2.masked)))
    (htask : task.masked = task'.masked) (t : TaskId) :
    ((tasks.map fun p => if p.1 = t then (t, task) else p).map fun p => (p.1, p.2.masked)) =
      (tasks'.map fun p => if p.1 = t then (t, task') else p).map fun p => (p.1, p.2.masked) := by
  have hreplace (ts : List (TaskId × Task)) (new : Task) :
      ((ts.map fun p => if p.1 = t then (t, new) else p).map fun p => (p.1, p.2.masked)) =
        (ts.map fun p => (p.1, p.2.masked)).map
          fun p => if p.1 = t then (t, new.masked) else p := by
    rw [List.map_map, List.map_map]
    refine List.map_congr_left fun p _ => ?_
    by_cases hp : p.1 = t <;> simp [hp]
  rw [hreplace, hreplace, h, htask]

theorem filter_congr {tasks tasks' : List (TaskId × Task)}
    (h : (tasks.map fun p => (p.1, p.2.masked)) = (tasks'.map fun p => (p.1, p.2.masked)))
    (t : TaskId) : ((tasks.filter (·.1 != t)).map fun p => (p.1, p.2.masked)) =
      (tasks'.filter (·.1 != t)).map fun p => (p.1, p.2.masked) := by
  have hfilter (ts : List (TaskId × Task)) :
      ((ts.filter (·.1 != t)).map fun p => (p.1, p.2.masked)) =
        (ts.map fun p => (p.1, p.2.masked)).filter (·.1 != t) := by
    rw [List.filter_map]
    rfl
  rw [hfilter, hfilter, h]

theorem eq_of_masked_eq_of_parked {limit : Time}
    (h : task.masked = task'.masked) (hdoing : task.doing = .parked limit) : task' = task := by
  obtain ⟨errand, doing⟩ := task
  obtain ⟨errand', doing'⟩ := task'
  obtain ⟨rfl, hmasked⟩ := Task.mk.inj h
  obtain rfl : doing = .parked limit := hdoing
  cases doing' <;> simp_all [Doing.masked]

theorem put_congr (h : w.masked = w'.masked) (htask : task.masked = task'.masked) (t : TaskId) :
    (w.put t task).masked = (w'.put t task').masked := by
  by_cases hparked : ∃ limit, task.doing = .parked limit
  · obtain ⟨limit, hdoing⟩ := hparked
    obtain rfl := eq_of_masked_eq_of_parked htask hdoing
    obtain ⟨tasks, asked, rfl, htasks, hasked⟩ := exists_of_masked_eq h
    simp only [put, hdoing]
    exact masked_eq_of rfl (map_replace_congr htasks rfl t) hasked
  · have hparked' : ∀ limit, task'.doing ≠ .parked limit := by
      intro limit hdoing
      obtain rfl := eq_of_masked_eq_of_parked htask.symm hdoing
      exact hparked ⟨limit, hdoing⟩
    have hput (w : World) (task : Task) (hdoing : ∀ limit, task.doing ≠ .parked limit) :
        w.put t task = note { w with
          tasks := w.tasks.map fun p => if p.1 = t then (t, task) else p } task := by
      unfold put
      split
      · next limit heq => exact absurd heq (hdoing limit)
      · rfl
    rw [hput w task fun limit hdoing => hparked ⟨limit, hdoing⟩, hput w' task' hparked']
    refine note_congr ?_ htask
    obtain ⟨tasks, asked, rfl, htasks, hasked⟩ := exists_of_masked_eq h
    exact masked_eq_of rfl (map_replace_congr htasks htask t) hasked

theorem finish_congr (h : w.masked = w'.masked) (t : TaskId) (o : Outcome) :
    (w.finish t o).masked = (w'.finish t o).masked := by
  obtain ⟨tasks, asked, rfl, htasks, hasked⟩ := exists_of_masked_eq h
  cases o <;> exact masked_eq_of rfl (filter_congr htasks t) hasked

theorem after_congr {st st' : Step} (h : w.masked = w'.masked) (hst : st.masked = st'.masked)
    (t : TaskId) (signal : Signal) :
    (w.after t signal st).masked = (w'.after t signal st').masked := by
  obtain ⟨ledger, ring, progress⟩ := st
  obtain ⟨ledger', ring', progress'⟩ := st'
  obtain ⟨rfl, rfl, hprogress⟩ := Step.mk.inj hst
  have hmid : masked { w with
      ledger := ledger
      lines := w.linesAfter signal
      bell := (w.bell.leave t).ring ring } = masked { w' with
      ledger := ledger
      lines := w'.linesAfter signal
      bell := (w'.bell.leave t).ring ring } := by
    obtain ⟨tasks, asked, rfl, htasks, hasked⟩ := exists_of_masked_eq h
    cases signal <;> exact masked_eq_of rfl htasks hasked
  cases progress with
  | running next =>
    cases progress' with
    | running next' => exact put_congr hmid (Progress.running.inj hprogress) t
    | finished o' => simp [Progress.masked] at hprogress
  | finished o =>
    cases progress' with
    | running next' => simp [Progress.masked] at hprogress
    | finished o' =>
      obtain rfl := Progress.finished.inj hprogress
      exact finish_congr hmid t o

theorem map_after_congr {steps steps' : Option Step} (h : w.masked = w'.masked)
    (hsteps : steps.map Step.masked = steps'.map Step.masked) (t : TaskId) (signal : Signal) :
    (steps.map (w.after t signal)).map masked = (steps'.map (w'.after t signal)).map masked := by
  cases steps with
  | none =>
    obtain rfl : steps' = none := by simpa using hsteps.symm
    rfl
  | some st =>
    rw [Option.map_some, eq_comm, Option.map_eq_some_iff] at hsteps
    obtain ⟨st', rfl, hst⟩ := hsteps
    exact congrArg some (after_congr h hst.symm t signal)

theorem advance_congr (hs : s.masked = s'.masked) (h : w.masked = w'.masked) (t : TaskId)
    (signal : Signal) :
    (w.act s (.advance t signal)).map masked = (w'.act s' (.advance t signal)).map masked := by
  obtain ⟨tasks, asked, rfl, htasks, -⟩ := exists_of_masked_eq h
  have htask := task?_congr h t
  simp only [act]
  cases hw : w.task? t with
  | none =>
    have hw' : task? { w with tasks := tasks, asked := asked } t = none := by
      simpa [hw] using htask.symm
    rw [hw']
  | some task =>
    rw [hw, Option.map_some, eq_comm, Option.map_eq_some_iff] at htask
    obtain ⟨task', hw', hmasked⟩ := htask
    have hstep := task.step_masked s w.now w.isOpen w.ledger signal
    rw [← hmasked, hs, Task.step_masked] at hstep
    have hadmits :
        admits { w with tasks := tasks, asked := asked } t signal = w.admits t signal := by
      cases signal <;> rfl
    simp only [hw', hadmits]
    split
    · exact map_after_congr h hstep.symm t signal
    · rfl

theorem abandon_congr (h : w.masked = w'.masked) (t : TaskId) :
    (w.act s (.abandon t)).map masked = (w'.act s' (.abandon t)).map masked := by
  obtain ⟨tasks, asked, rfl, htasks, hasked⟩ := exists_of_masked_eq h
  have htask := task?_congr h t
  simp only [act]
  cases hw : w.task? t with
  | none =>
    have hw' : task? { w with tasks := tasks, asked := asked } t = none := by
      simpa [hw] using htask.symm
    rw [hw']
  | some task =>
    rw [hw, Option.map_some, eq_comm, Option.map_eq_some_iff] at htask
    obtain ⟨task', hw', hmasked⟩ := htask
    have hsame (l : Ledger) (task : Task) :
        task.masked.abandon l = task.abandon l ∧ task.masked.lent? = task.lent? := by
      obtain ⟨errand, doing⟩ := task
      exact ⟨by cases errand <;> cases doing <;> rfl, by cases errand <;> rfl⟩
    obtain ⟨habandon, hlent⟩ := hsame w.ledger task
    rw [← hmasked, (hsame w.ledger task').1] at habandon
    rw [← hmasked, (hsame w.ledger task').2] at hlent
    simp only [hw', habandon, hlent]
    exact congrArg some (masked_eq_of rfl (filter_congr htasks t) hasked)

theorem launch_congr (h : w.masked = w'.masked) (t : TaskId) (errand : Errand) :
    (w.launch t errand).masked = (w'.launch t errand).masked := by
  obtain ⟨tasks, asked, rfl, htasks, hasked⟩ := exists_of_masked_eq h
  refine masked_eq_of rfl ?_ hasked
  simp only [launch, List.map_append, htasks]

theorem act_congr (hs : s.masked = s'.masked) (h : w.masked = w'.masked) (a : Action) :
    (w.act s a).map masked = (w'.act s' a).map masked := by
  cases a with
  | advance t signal => exact advance_congr hs h t signal
  | abandon t => exact abandon_congr h t
  | begin t call =>
    have hlaunch := launch_congr h t (errand s w call)
    obtain ⟨tasks, asked, rfl, htasks, -⟩ := exists_of_masked_eq h
    have hfresh : isFresh { w with tasks := tasks, asked := asked } t = w.isFresh t :=
      isFresh_congr htasks t
    have herrand : errand s' { w with tasks := tasks, asked := asked } call = errand s w call := by
      have htimeout : s'.masked.blockingTimeout = s.masked.blockingTimeout := by rw [hs]
      cases call with
      | acquire => exact congrArg (fun timeout => Errand.acquire (w.now + timeout)) htimeout
      | _ => rfl
    rw [act, act, hfresh, herrand]
    split
    · exact congrArg some hlaunch
    · rfl
  | use t id use =>
    obtain ⟨tasks, asked, rfl, htasks, hasked⟩ := exists_of_masked_eq h
    have hfresh : isFresh { w with tasks := tasks, asked := asked } t = w.isFresh t :=
      isFresh_congr htasks t
    have hholding : holding? { w with tasks := tasks, asked := asked } id = w.holding? id := rfl
    have hnot : (w.notHolding id).masked =
        (notHolding { w with tasks := tasks, asked := asked } id).masked :=
      masked_eq_of rfl htasks hasked
    simp only [act, hfresh, hholding]
    split
    · exact congrArg some (launch_congr hnot t _)
    · rfl
  | letGo id =>
    obtain ⟨tasks, asked, rfl, htasks, hasked⟩ := exists_of_masked_eq h
    have hholding : holding? { w with tasks := tasks, asked := asked } id = w.holding? id := rfl
    simp only [act, hholding]
    split
    · rfl
    · exact congrArg some (masked_eq_of rfl htasks hasked)
  | invalidate id =>
    obtain ⟨tasks, asked, rfl, htasks, hasked⟩ := exists_of_masked_eq h
    have hholding : holding? { w with tasks := tasks, asked := asked } id = w.holding? id := rfl
    simp only [act, hholding]
    split
    · rfl
    · exact congrArg some (masked_eq_of rfl htasks hasked)
  | die line =>
    obtain ⟨tasks, asked, rfl, htasks, hasked⟩ := exists_of_masked_eq h
    exact congrArg some (masked_eq_of rfl htasks hasked)
  | wait time =>
    obtain ⟨tasks, asked, rfl, htasks, hasked⟩ := exists_of_masked_eq h
    simp only [act]
    split
    · exact congrArg some (masked_eq_of rfl htasks hasked)
    · rfl

/-- Pools that are alike but for their secrets stay so, whatever happens to both. -/
theorem run_congr (hs : s.masked = s'.masked) (h : w.masked = w'.masked) (actions : List Action) :
    (run s w actions).map masked = (run s' w' actions).map masked := by
  induction actions generalizing w w' with
  | nil => exact congrArg some h
  | cons a actions ih =>
    have hact := act_congr hs h a
    rw [run, run]
    cases hnext : w.act s a with
    | none =>
      rw [hnext, Option.map_none, eq_comm, Option.map_eq_none_iff] at hact
      simp [hact]
    | some next =>
      rw [hnext, Option.map_some, eq_comm, Option.map_eq_some_iff] at hact
      obtain ⟨next', hnext', hmasked⟩ := hact
      rw [hnext', Option.bind_some, Option.bind_some]
      exact ih hmasked.symm

end World

end Pool

end FaxClient
