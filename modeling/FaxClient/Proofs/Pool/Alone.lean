import FaxClient.Proofs.Pool.Conservation
import FaxClient.Proofs.Pool.Opening
import FaxClient.Proofs.Pool.Provision

/-!
# One call after the other

Let calls be made one after the other, each to its end, and let all go well: whatever a task asks
for is done, and in time.  Then a call always comes to its end, and what it leads to is read off its
one task: a scheme tells what is true of the task and of the ledger while it is under way, and what
is true when it is over.

Of the sessions no more is changed than that those of the members that the task tears down are
asked to close, each once, if they are open.
-/

namespace FaxClient.Pool

/-- Whether a signal tells of no failure to close a session, and of no delay. -/
def Signal.succeeds : Signal → Bool
  | .closed r => r.isOk
  | .late => false
  | .go | .connected _ | .unconnected _ | .replied _ | .cut | .rung => true

/-- Whether a signal is good news for a task: what it asks for is done, and in time. -/
def Task.prospers (s : Settings) (t : Task) (signal : Signal) : Bool :=
  t.thrives s signal && signal.succeeds

/-- The member that a task tears down from its next step on. -/
def Task.discards (t : Task) : List Member :=
  match t.doing with
  | .discarding m => [m]
  | _ => []

namespace World

/-- Whether an action belongs to a smooth run: a task hears good news, or time passes. -/
def isSmooth (s : Settings) (w : World) : Action → Bool
  | .advance t signal => (w.task? t).all fun task => task.prospers s signal
  | .wait _ => true
  | .begin .. | .use .. | .abandon _ | .letGo _ | .invalidate _ | .die _ => false

/-- Where a smooth run leads. -/
def glide (s : Settings) : World → List Action → Option World
  | w, [] => some w
  | w, a :: rest => if w.isSmooth s a then (w.act s a).bind fun next => glide s next rest else none

/-- An action is taken, and whatever it begins goes on smoothly to its end. -/
def Performs (s : Settings) (w : World) (a : Action) (w' : World) : Prop :=
  ∃ next actions, w.act s a = some next ∧ glide s next actions = some w' ∧ w'.tasks = []

theorem Performs.tasks_eq {s : Settings} {w w' : World} {a : Action} (h : Performs s w a w') :
    w'.tasks = [] := by
  obtain ⟨next, actions, -, -, htasks⟩ := h
  exact htasks

end World

/-! ## What is asked of sessions -/

namespace Task

variable {s : Settings} {now : Time} {isOpen : Line → Bool} {l : Ledger} {errand : Errand}
  {t : Task} {signal : Signal} {st : Step}

theorem thrives_of_prospers (h : t.prospers s signal = true) : t.thrives s signal = true :=
  (Bool.and_eq_true_iff.mp h).1

theorem eq_of_step_closing {m : Member} {limit : Time}
    (hprospers : prospers s ⟨errand, .closing m limit⟩ signal = true)
    (hstep : step s now isOpen l ⟨errand, .closing m limit⟩ signal = some st) :
    st = discarded s now l errand true := by
  cases signal with
  | closed r =>
    obtain rfl := Option.some.inj hstep
    have hr : r.isOk = true := by simpa [prospers, thrives, Signal.succeeds] using hprospers
    rw [hr]
  | late => simp [prospers, Signal.succeeds] at hprospers
  | _ => simp [step] at hstep

theorem begins_of_not_discarding (hthrives : t.thrives s signal = true)
    (hdoing : ∀ m, t.doing ≠ .discarding m) : t.begins s isOpen signal = [] := by
  obtain ⟨errand, doing⟩ := t
  cases doing with
  | discarding m => exact absurd rfl (hdoing m)
  | creating c =>
    cases c with
    | loggingIn m request rest =>
      cases signal with
      | replied r =>
        cases hnext : r.bind (Login.next s request rest) with
        | ok rest' => simp [begins, hnext]
        | error e => simp [thrives, hnext, Except.isOk, Except.toBool] at hthrives
      | _ => rfl
    | _ => cases signal <;> rfl
  | _ => cases signal <;> rfl

/-- If all goes well, a session is asked to close as its member is torn down, if it is open, and at
no other time. -/
theorem count_asked (hproper : t.Proper) (hunladen : t.Unladen) (hparts : t.parts = [])
    (hprospers : t.prospers s signal = true) (hstep : t.step s now isOpen l signal = some st)
    (line : Line) :
    st.progress.asked.count line =
      if isOpen line then (Pool.lines t.discards).count line else 0 := by
  rw [(conserves_step hproper hunladen hstep).asked_eq, hparts]
  by_cases hdoing : ∃ m, t.doing = .discarding m
  · obtain ⟨m, hdoing⟩ := hdoing
    have hbegins : t.begins s isOpen signal =
        [(m.line, if isOpen m.line then .dismissed else .lost)] := by
      obtain ⟨errand, doing⟩ := t
      obtain rfl : doing = .discarding m := hdoing
      cases signal <;> rfl
    have hdiscards : t.discards = [m] := by simp [discards, hdoing]
    rw [hbegins, hdiscards]
    by_cases hline : m.line = line
    · subst hline
      cases isOpen m.line <;> simp [Ending.calls, Pool.lines]
    · simp [Pool.lines, hline]
  · have hdoing : ∀ m, t.doing ≠ .discarding m := fun m hm => hdoing ⟨m, hm⟩
    have hdiscards : t.discards = [] := by
      obtain ⟨errand, doing⟩ := t
      cases doing with
      | discarding m => exact absurd rfl (hdoing m)
      | _ => rfl
    simp [begins_of_not_discarding (thrives_of_prospers hprospers) hdoing, hdiscards, Pool.lines]

end Task

namespace World

variable {s : Settings} {b w w' : World} {t : TaskId} {task : Task} {signal : Signal} {st : Step}
  {past : List Member} {outcomes : List (TaskId × Outcome)}

theorem isOpen_put (w : World) (t : TaskId) (task : Task) (line : Line) :
    (w.put t task).isOpen line =
      (w.isOpen line && !(task.query?.bind Query.closed?).toList.contains line) := by
  have hnote : ∀ (w : World) (task : Task), (w.note task).isOpen line =
      (w.isOpen line && !(task.query?.bind Query.closed?).toList.contains line) := by
    intro w task
    unfold note
    split
    · next hquery => simp [hquery]
    · next other hquery =>
      by_cases hother : line = other
      · subst hother
        simp [isOpen, hquery, Query.closed?]
      · simp [isOpen, hquery, Query.closed?, hother]
    · next q hq hquery =>
      cases q with
      | close other => exact absurd rfl (hq other)
      | _ => simp [isOpen, hquery, Query.closed?]
  unfold put
  split
  · next limit hdoing =>
    have hquery : task.query? = none := by
      obtain ⟨errand, doing⟩ := task
      obtain rfl : doing = .parked limit := hdoing
      rfl
    simp [isOpen, hquery]
  · exact hnote _ _

theorem isOpen_after (w : World) (t : TaskId) (signal : Signal) (st : Step) (line : Line) :
    (w.after t signal st).isOpen line = (w.isOpen line && !st.progress.asked.contains line) := by
  obtain ⟨ledger, ring, progress⟩ := st
  cases progress with
  | running next => exact isOpen_put _ t next line
  | finished o => cases o <;> simp [after, finish, without, isOpen, Progress.asked]

/-- In the course of things these members were torn down: those of their sessions that were open
have been asked to close, and no others. -/
structure Closed (b : World) (past : List Member) (w : World) : Prop where
  closes_eq : ∀ line,
    w.closes line = b.closes line + if b.isOpen line then (Pool.lines past).count line else 0
  isOpen_eq : ∀ line, w.isOpen line = (b.isOpen line && !(Pool.lines past).contains line)

theorem Closed.refl (w : World) : w.Closed [] w := ⟨by simp [Pool.lines], by simp [Pool.lines]⟩

theorem Closed.after {members : List Member} (h : b.Closed past w)
    (hnew : ∀ m ∈ members, m.line ∉ Pool.lines past)
    (hasked : ∀ line, st.progress.asked.count line =
      if w.isOpen line then (Pool.lines members).count line else 0) :
    b.Closed (past ++ members) (w.after t signal st) := by
  have hpast : ∀ line ∈ Pool.lines past, (Pool.lines members).count line = 0 := by
    intro line hline
    refine List.count_eq_zero.mpr fun hmem => ?_
    obtain ⟨m, hm, rfl⟩ := List.mem_map.mp hmem
    exact hnew m hm hline
  have happend : Pool.lines (past ++ members) = Pool.lines past ++ Pool.lines members :=
    List.map_append
  refine ⟨fun line => ?_, fun line => ?_⟩
  · rw [closes_after, h.closes_eq, hasked, h.isOpen_eq, happend, List.count_append]
    by_cases hline : line ∈ Pool.lines past
    · cases b.isOpen line <;> simp [hline, hpast line hline]
    · cases b.isOpen line <;> simp [hline, add_assoc]
  · have hcontains : st.progress.asked.contains line =
        (w.isOpen line && (Pool.lines members).contains line) := by
      rw [Bool.eq_iff_iff, List.contains_iff_mem, ← List.count_pos_iff, hasked]
      cases w.isOpen line <;> simp
    rw [isOpen_after, hcontains, h.isOpen_eq, happend]
    cases b.isOpen line <;> by_cases hline : line ∈ Pool.lines past <;> simp [hline]

theorem held_after (w : World) (t : TaskId) (signal : Signal) {st : Step}
    (h : ∀ o, st.progress = .finished o → o.member? = none) :
    (w.after t signal st).held = w.held := by
  obtain ⟨ledger, ring, progress⟩ := st
  cases progress with
  | running next => exact (puts_put _ t next).held_eq
  | finished o =>
    have ho := h o rfl
    cases o <;> first | rfl | simp [Outcome.member?] at ho

theorem tasks_after_running (htasks : w.tasks = [(t, task)]) {next : Task}
    (hst : st.progress = .running next) (hnext : ∀ limit, next.doing ≠ .parked limit) :
    (w.after t signal st).tasks = [(t, next)] := by
  rw [tasks_after w t signal hst hnext]
  simp [tasksWith, htasks]

theorem tasks_after_finished (htasks : w.tasks = [(t, task)]) {o : Outcome}
    (hst : st.progress = .finished o) : (w.after t signal st).tasks = [] := by
  simp only [after, hst, tasks_finish]
  simp [without, htasks]

theorem Reachable.complete (h : Reachable s w) : ∃ n, w.Complete n := by
  obtain ⟨actions, hrun⟩ := h
  obtain ⟨n, hn⟩ := (unfolds_of_run hrun).exists_recorded
  exact ⟨n, hn.complete⟩

/-- Since a world in which one task was under way, nothing has happened but that this task has gone
on, has torn down some members, and perhaps has ended. -/
structure Since (s : Settings) (b : World) (past : List Member)
    (outcomes : List (TaskId × Outcome)) (w : World) : Prop where
  reachable : Reachable s w
  held_eq : w.held = b.held
  finished_eq : w.finished = b.finished ++ outcomes
  lines_subset : b.lines ⊆ w.lines
  closed : b.Closed past w

theorem Since.refl (h : Reachable s w) : Since s w [] [] w :=
  ⟨h, rfl, (List.append_nil _).symm, List.Subset.refl _, .refl w⟩

theorem Since.wait {time : Time} (h : Since s b past outcomes w) (htime : w.now ≤ time) :
    Since s b past outcomes { w with now := time } := by
  have hact : w.act s (.wait time) = some { w with now := time } := by simp [act, htime]
  obtain ⟨hreachable, hheld, hfinished, hlines, hclosed⟩ := h
  exact ⟨hreachable.later (later_of_act hact), hheld, hfinished, hlines, hclosed.1, hclosed.2⟩

theorem Since.notMem_of_admits (h : Since s b past outcomes w)
    (hadmits : w.admits t signal = true) : ∀ line, signal = .connected line → line ∉ b.lines := by
  rintro line rfl hline
  have hnew : line ∉ w.lines := by simpa [admits] using hadmits
  exact hnew (h.lines_subset hline)

theorem Since.advance (h : Since s b past [] w) (htask : w.task? t = some task)
    (hparts : task.parts = []) (hnew : ∀ m ∈ task.discards, m.line ∉ Pool.lines past)
    (hadmits : w.admits t signal = true) (hprospers : task.prospers s signal = true)
    (hstep : task.step s w.now w.isOpen w.ledger signal = some st)
    (hst : ∀ o, st.progress = .finished o → o.member? = none) :
    Since s b (past ++ task.discards) (st.progress.outcome?.map fun o => (t, o)).toList
      (w.after t signal st) := by
  have hact := act_advance_eq htask hadmits hstep
  obtain ⟨n, hcomplete⟩ := h.reachable.complete
  refine ⟨h.reachable.later (later_of_act hact), ?_, ?_, ?_, ?_⟩
  · rw [held_after w t signal hst, h.held_eq]
  · rw [finished_after, h.finished_eq, List.append_nil]
  · rw [lines_after]
    exact List.subset_append_of_subset_right _ h.lines_subset
  · exact h.closed.after hnew (Task.count_asked (h.reachable.orderly.proper_of_task? htask)
      (hcomplete.unladen_of_task? htask) hparts hprospers hstep)

end World

/-! ## A call comes to its end -/

/-- Whether a task goes on, and does not wait for others. -/
def Doing.isActive : Doing → Bool
  | .ready | .discarding _ | .closing .. => true
  | .creating c => c.thrives
  | .parked _ | .asking | .leaving => false

theorem exists_line_notMem (lines : List Line) : ∃ line, line ∉ lines := by
  have hinfinite : Infinite Line := .of_injective Line.mk fun _ _ h => Line.mk.inj h
  obtain ⟨line, hline⟩ := Infinite.exists_notMem_finset lines.toFinset
  exact ⟨line, by simpa using hline⟩

/-- Every request of a login can be granted. -/
theorem Login.exists_next (s : Settings) (request : Login) (rest : List Login) :
    ∃ reply, next s request rest reply = .ok rest := by
  cases request with
  | tzone zone => exact ⟨⟨200, ""⟩, rfl⟩
  | _ => exact ⟨⟨230, ""⟩, rfl⟩

theorem World.exists_prospering (s : Settings) (w : World) (t : TaskId) {task : Task}
    (h : task.doing.isActive = true) : ∃ signal st, w.admits t signal = true ∧
      task.prospers s signal = true ∧
        task.step s w.now w.isOpen w.ledger signal = some st := by
  obtain ⟨errand, doing⟩ := task
  cases doing with
  | ready => exact ⟨.go, _, rfl, rfl, rfl⟩
  | discarding m =>
    by_cases hopen : w.isOpen m.line
    · exact ⟨.go, _, rfl, rfl, by simp [Task.step, hopen]; rfl⟩
    · exact ⟨.go, _, rfl, rfl, by simp [Task.step, hopen]; rfl⟩
  | closing m limit => exact ⟨.closed (.ok ()), _, rfl, rfl, rfl⟩
  | creating c =>
    cases c with
    | connecting id =>
      obtain ⟨line, hline⟩ := exists_line_notMem w.lines
      exact ⟨.connected line, _, by simp [admits, hline], rfl, rfl⟩
    | loggingIn m request rest =>
      obtain ⟨reply, hreply⟩ := Login.exists_next s request rest
      refine ⟨.replied (.ok reply), _, rfl, ?_, rfl⟩
      simp [Task.prospers, Task.thrives, Except.bind, hreply, Except.isOk, Except.toBool,
        Signal.succeeds]
    | closing m e limit => simp [Doing.isActive, Creation.thrives] at h
    | ended result => exact ⟨.go, _, rfl, rfl, rfl⟩
  | parked limit => simp [Doing.isActive] at h
  | asking => simp [Doing.isActive] at h
  | leaving => simp [Doing.isActive] at h

/-! ### How many steps are left at most -/

def Creation.toil (s : Settings) : Creation → ℕ
  | .connecting _ => ((Login.requests s).map Login.span).sum + 4
  | .loggingIn _ request rest => request.span + (rest.map Login.span).sum + 3
  | .closing .. | .ended _ => 3

/-- What a creation costs, its beginning included. -/
def Settings.creationToil (s : Settings) : ℕ := ((Login.requests s).map Login.span).sum + 5

def Doing.toil (s : Settings) : Doing → ℕ
  | .creating c => c.toil s
  | .discarding _ => 2
  | .closing .. => 1
  | .ready | .parked _ | .asking | .leaving => 0

/-- Whether an errand comes to its end by itself. -/
def Errand.isFinite : Errand → Bool
  | .release _ | .replace _ | .start | .fill .. | .stop | .drain .. | .restart | .renew .. => true
  | .acquire _ | .grow _ | .ask .. | .leave _ => false

def Errand.toil (s : Settings) (l : Ledger) : Errand → ℕ
  | .release _ => s.creationToil + 4
  | .replace wanted => wanted.toNat * s.creationToil + 1
  | .fill left _ => left * s.creationToil + 1
  | .start => s.minSize * s.creationToil + 2
  | .drain left _ => left.length * 3 + 1
  | .stop => l.idle.length * 3 + 2
  | .renew left _ => left.length * 3 + s.minSize * s.creationToil + 2
  | .restart => l.idle.length * 3 + s.minSize * s.creationToil + 3
  | .acquire _ | .grow _ | .ask .. | .leave _ => 0

def Task.toil (s : Settings) (l : Ledger) (t : Task) : ℕ := t.errand.toil s l + t.doing.toil s

def Progress.toil (s : Settings) (l : Ledger) : Progress → ℕ
  | .running t => t.toil s l + 1
  | .finished _ => 0

theorem toil_loginWith (s : Settings) (m : Member) (rest : List Login) :
    (Task.loginWith m rest).toil s = (rest.map Login.span).sum + 3 := by
  cases rest with
  | nil => rfl
  | cons request rest => simp [Task.loginWith, Creation.toil]

namespace Task

variable {s : Settings} {now : Time} {isOpen : Line → Bool} {l : Ledger} {errand : Errand}
  {t : Task} {signal : Signal} {st : Step}

theorem toil_created_le (s : Settings) (now : Time) (l l' : Ledger)
    (hfinite : errand.isFinite = true) (added : Bool) :
    (created s now l errand added).progress.toil s l ≤ errand.toil s l' + 1 := by
  cases errand with
  | grow deadline => simp [Errand.isFinite] at hfinite
  | fill left tally => exact le_rfl
  | _ => exact Nat.zero_le _

theorem toil_discarded_le (s : Settings) (now : Time) (l l' : Ledger)
    (hfinite : errand.isFinite = true) (success : Bool) :
    (discarded s now l errand success).progress.toil s l ≤ errand.toil s l' + 1 := by
  have hcreated := toil_created_le s now l l' hfinite false
  cases errand with
  | acquire deadline => simp [Errand.isFinite] at hfinite
  | drain left tally => exact le_rfl
  | renew left tally => exact le_rfl
  | replace wanted => exact le_rfl
  | _ => exact hcreated

theorem toil_tryCreate_le (s : Settings) (now : Time) (l l' : Ledger)
    (hfinite : errand.isFinite = true) (hsame : ∀ l, errand.toil s l = errand.toil s l') :
    (tryCreate s now l errand).progress.toil s (tryCreate s now l errand).ledger ≤
      errand.toil s l' + s.creationToil := by
  unfold tryCreate
  split
  · simp only [continuing, Progress.toil, toil, hsame, Doing.toil, Creation.toil,
      Settings.creationToil]
    omega
  · rw [ledger_created]
    have hcreated := toil_created_le s now l l' hfinite false
    simp only [Settings.creationToil]
    omega

theorem toil_fill_missing_le (l : Ledger) (tally : Tally) :
    (continuing l (.fill (l.missing s) tally) .ready .none).progress.toil s l ≤
      s.minSize * s.creationToil + 2 := by
  have hmissing : l.missing s * s.creationToil ≤ s.minSize * s.creationToil :=
    Nat.mul_le_mul_right _ (Nat.sub_le _ _)
  simp only [continuing, Progress.toil, toil, Errand.toil, Doing.toil]
  omega

theorem toil_proceed_le (hfinite : errand.isFinite = true) :
    (proceed s now isOpen l errand).progress.toil s (proceed s now isOpen l errand).ledger ≤
      errand.toil s l := by
  cases errand with
  | release m =>
    rcases l.giveBack_cases s isOpen m with ⟨-, hback⟩ | ⟨replace, hback⟩
    · simp [proceed, hback, finishing, Progress.toil]
    · cases replace <;>
        simp [proceed, hback, continuing, Progress.toil, toil, Errand.toil, Doing.toil]
  | replace wanted =>
    cases wanted with
    | true =>
      have hfinite : (Errand.replace false).isFinite = true := rfl
      have htry := toil_tryCreate_le s now l l hfinite fun _ => rfl
      simp only [Errand.toil, Bool.toNat_false, Bool.toNat_true] at htry ⊢
      simp only [proceed]
      omega
    | false => exact Nat.zero_le _
  | start => exact toil_fill_missing_le { l with stopped := false } .zero
  | fill left tally =>
    cases left with
    | zero => exact Nat.zero_le _
    | succ left =>
      have hfinite : (Errand.fill left tally).isFinite = true := rfl
      have htry := toil_tryCreate_le s now l l hfinite fun _ => rfl
      simp only [Errand.toil, Nat.succ_mul] at htry ⊢
      simp only [proceed]
      omega
  | stop => exact le_rfl
  | drain left tally =>
    cases left with
    | nil => exact Nat.zero_le _
    | cons m left =>
      simp only [proceed, continuing, Progress.toil, toil, Errand.toil, Doing.toil,
        List.length_cons]
      omega
  | restart => exact le_rfl
  | renew left tally =>
    cases left with
    | nil =>
      refine (toil_fill_missing_le l tally).trans ?_
      simp [Errand.toil]
    | cons m left =>
      simp only [proceed, continuing, Progress.toil, toil, Errand.toil, Doing.toil,
        List.length_cons]
      omega
  | _ => simp [Errand.isFinite] at hfinite

theorem toil_settle_le (hfinite : errand.isFinite = true) (m : Member) :
    (settle s now l errand (.ok m)).progress.toil s (settle s now l errand (.ok m)).ledger ≤
      errand.toil s l + 3 := by
  cases hpublish : l.settle.publish m with
  | none =>
    have hsettle : errand.toil s l.settle = errand.toil s l := by cases errand <;> rfl
    simp only [settle, hpublish, continuing, Progress.toil, toil, hsettle, Doing.toil]
    omega
  | some l' =>
    have hcreated := toil_created_le s now l' l hfinite true
    simp only [settle, hpublish, ledger_created]
    omega

theorem toil_step_creating_le {c : Creation} (hfinite : errand.isFinite = true)
    (hc : c.thrives = true) (hprospers : prospers s ⟨errand, .creating c⟩ signal = true)
    (hstep : step s now isOpen l ⟨errand, .creating c⟩ signal = some st) :
    st.progress.toil s st.ledger ≤ toil s l ⟨errand, .creating c⟩ := by
  cases Creation.stepped hc (thrives_of_prospers hprospers) hstep with
  | connected id line =>
    simp only [continuing, Progress.toil, toil, Doing.toil]
    rw [toil_loginWith, Creation.toil]
    omega
  | granted m request rest rest' reply hnext =>
    have hspan := Login.span_of_next hnext
    simp only [continuing, Progress.toil, toil, Doing.toil]
    rw [toil_loginWith, Creation.toil]
    omega
  | ended m => exact toil_settle_le hfinite m

/-- Each step of a task for which all goes well is one step less. -/
theorem toil_step_le (hfinite : t.errand.isFinite = true) (hactive : t.doing.isActive = true)
    (hprospers : t.prospers s signal = true)
    (hstep : t.step s now isOpen l signal = some st) :
    st.progress.toil s st.ledger ≤ t.toil s l := by
  obtain ⟨errand, doing⟩ := t
  cases doing with
  | creating c => exact toil_step_creating_le hfinite hactive hprospers hstep
  | ready =>
    cases stepped hstep with
    | proceed errand => exact toil_proceed_le hfinite
  | discarding m =>
    cases stepped hstep with
    | close errand m limit =>
      have hrevoke : errand.toil s (l.revoke m.id) = errand.toil s l := by cases errand <;> rfl
      simp only [continuing, Progress.toil, toil, hrevoke, Doing.toil]
      omega
    | discard errand m =>
      have hle := toil_discarded_le s now (l.revoke m.id) l hfinite true
      rw [ledger_discarded]
      exact hle.trans (Nat.le_succ _)
  | closing m limit =>
    cases stepped hstep with
    | closed errand m limit success =>
      rw [ledger_discarded]
      exact toil_discarded_le s _ _ l hfinite success
  | parked limit => simp [Doing.isActive] at hactive
  | asking => simp [Doing.isActive] at hactive
  | leaving => simp [Doing.isActive] at hactive

end Task

/-! ## Schemes -/

/-- What a step leads to: to a task of which the one is true, or to an outcome of which the other
is true. -/
def Step.Leads (P : Ledger → List Member → Task → Prop) (Q : Ledger → List Member → Outcome → Prop)
    (past : List Member) (st : Step) : Prop :=
  match st.progress with
  | .running next => (∀ limit, next.doing ≠ .parked limit) ∧ P st.ledger past next
  | .finished o => o.member? = none ∧ Q st.ledger past o

namespace World

variable {s : Settings} {b w w' last : World} {t : TaskId} {task : Task}
  {P : Ledger → List Member → Task → Prop} {Q : Ledger → List Member → Outcome → Prop}
  {past : List Member} {actions : List Action}

/-- What is true of a task, of the ledger and of the members torn down while the task is under way,
and what is true in the end. -/
structure Scheme (s : Settings) (b : World) (P : Ledger → List Member → Task → Prop)
    (Q : Ledger → List Member → Outcome → Prop) : Prop where
  finite : ∀ {l past task}, P l past task → task.errand.isFinite = true
  active : ∀ {l past task}, P l past task → task.doing.isActive = true
  new : ∀ {l past task}, P l past task → ∀ m ∈ task.discards, m.line ∉ Pool.lines past
  leads : ∀ {w t past task signal st}, Since s b past [] w → w.tasks = [(t, task)] →
    P w.ledger past task → w.admits t signal = true → task.prospers s signal = true →
      task.step s w.now w.isOpen w.ledger signal = some st → st.Leads P Q (past ++ task.discards)

theorem parts_of_isFinite (h : task.errand.isFinite = true) : task.parts = [] := by
  obtain ⟨errand, doing⟩ := task
  cases errand with
  | leave m => simp [Errand.isFinite] at h
  | _ => cases doing <;> rfl

theorem glide_cons_eq_some {a : Action} (h : glide s w (a :: actions) = some last) :
    ∃ next, w.isSmooth s a = true ∧ w.act s a = some next ∧ glide s next actions = some last := by
  rw [glide] at h
  split at h
  · next hsmooth =>
    obtain ⟨next, hact, hrest⟩ := Option.bind_eq_some_iff.mp h
    exact ⟨next, hsmooth, hact, hrest⟩
  · simp at h

/-- A task is under way by a scheme, or is over by it. -/
inductive Follows (s : Settings) (b : World) (t : TaskId)
    (P : Ledger → List Member → Task → Prop) (Q : Ledger → List Member → Outcome → Prop)
    (w : World) : Prop
  | underway {past : List Member} {task : Task} (hsince : Since s b past [] w)
      (htasks : w.tasks = [(t, task)]) (h : P w.ledger past task)
  | ended {past : List Member} {o : Outcome} (hsince : Since s b past [(t, o)] w)
      (htasks : w.tasks = []) (h : Q w.ledger past o)

theorem Scheme.advance (scheme : Scheme s b P Q) {signal : Signal} {st : Step}
    (hsince : Since s b past [] w) (htasks : w.tasks = [(t, task)]) (h : P w.ledger past task)
    (hadmits : w.admits t signal = true) (hprospers : task.prospers s signal = true)
    (hstep : task.step s w.now w.isOpen w.ledger signal = some st) :
    Follows s b t P Q (w.after t signal st) := by
  have hleads := scheme.leads hsince htasks h hadmits hprospers hstep
  have hmember : ∀ o, st.progress = .finished o → o.member? = none := by
    intro o ho
    simp only [Step.Leads, ho] at hleads
    exact hleads.1
  have hafter := hsince.advance (task?_of_tasks htasks) (parts_of_isFinite (scheme.finite h))
    (scheme.new h) hadmits hprospers hstep hmember
  have hledger := w.ledger_after t signal st
  cases hprogress : st.progress with
  | running next =>
    simp only [Step.Leads, hprogress] at hleads
    rw [hprogress] at hafter
    refine .underway hafter (tasks_after_running htasks hprogress hleads.1) ?_
    rw [hledger]
    exact hleads.2
  | finished o =>
    simp only [Step.Leads, hprogress] at hleads
    rw [hprogress] at hafter
    refine .ended hafter (tasks_after_finished htasks hprogress) ?_
    rw [hledger]
    exact hleads.2

theorem Follows.act (scheme : Scheme s b P Q) (h : Follows s b t P Q w) {a : Action}
    (hsmooth : w.isSmooth s a = true) (hact : w.act s a = some w') : Follows s b t P Q w' := by
  cases acted hact with
  | advance t' signal task' st htask hadmits hstep =>
    cases h with
    | @underway past task hsince htasks h =>
      obtain ⟨rfl, rfl⟩ := eq_of_task? htasks htask
      have hprospers : task'.prospers s signal = true := by
        simpa [isSmooth, htask] using hsmooth
      exact scheme.advance hsince htasks h hadmits hprospers hstep
    | ended hsince htasks h => simp [task?, htasks] at htask
  | wait time htime =>
    cases h with
    | underway hsince htasks h => exact .underway (hsince.wait htime) htasks h
    | ended hsince htasks h => exact .ended (hsince.wait htime) htasks h
  | _ => simp [isSmooth] at hsmooth

theorem Follows.glide (scheme : Scheme s b P Q) (h : Follows s b t P Q w)
    (hglide : glide s w actions = some last) : Follows s b t P Q last := by
  induction actions generalizing w with
  | nil =>
    obtain rfl := Option.some.inj hglide
    exact h
  | cons a actions ih =>
    obtain ⟨next, hsmooth, hact, hrest⟩ := glide_cons_eq_some hglide
    exact ih (h.act scheme hsmooth hact) hrest

/-- A task that is under way by a scheme can come to its end. -/
theorem Scheme.exists_glide (scheme : Scheme s b P Q) (hsince : Since s b past [] w)
    (htasks : w.tasks = [(t, task)]) (h : P w.ledger past task) :
    ∃ actions last, glide s w actions = some last ∧ last.tasks = [] := by
  induction htoil : task.toil s w.ledger using Nat.strong_induction_on generalizing w past task with
  | _ n ih =>
    obtain ⟨signal, st, hadmits, hprospers, hstep⟩ := w.exists_prospering s t (scheme.active h)
    have htask := task?_of_tasks htasks
    have hact := act_advance_eq htask hadmits hstep
    have hsmooth : w.isSmooth s (.advance t signal) = true := by
      simpa [isSmooth, htask] using hprospers
    have hglide (actions : List Action) : glide s w (.advance t signal :: actions) =
        glide s (w.after t signal st) actions := by
      simp [glide, hsmooth, hact]
    have hle := Task.toil_step_le (scheme.finite h) (scheme.active h) hprospers hstep
    have hleads := scheme.leads hsince htasks h hadmits hprospers hstep
    cases hprogress : st.progress with
    | finished o => exact ⟨_, _, hglide [], tasks_after_finished htasks hprogress⟩
    | running next =>
      simp only [Step.Leads, hprogress] at hleads
      have hrunning : (w.after t signal st).tasks = [(t, next)] :=
        tasks_after_running htasks hprogress hleads.1
      cases scheme.advance hsince htasks h hadmits hprospers hstep with
      | @underway past' task' hsince' htasks' h' =>
        obtain rfl : task' = next := by simpa [hrunning, eq_comm] using htasks'
        have hlt : task'.toil s (w.after t signal st).ledger < n := by
          rw [hprogress, Progress.toil, htoil] at hle
          rw [ledger_after]
          exact hle
        obtain ⟨actions, last, hrest, hlast⟩ := ih _ hlt hsince' htasks' h' rfl
        exact ⟨_, last, (hglide actions).trans hrest, hlast⟩
      | ended _ hnone _ => simp [hrunning] at hnone

/-- A call by a scheme can always come to its end, and whenever it has, the scheme tells how. -/
theorem Scheme.performs (scheme : Scheme s b P Q) {a : Action} (hact : w.act s a = some b)
    (hreachable : Reachable s b) (htasks : b.tasks = [(t, task)]) (h : P b.ledger [] task) :
    (∃ last, Performs s w a last) ∧ ∀ last, Performs s w a last →
      ∃ past o, Since s b past [(t, o)] last ∧ Q last.ledger past o := by
  refine ⟨?_, ?_⟩
  · obtain ⟨actions, last, hglide, hlast⟩ := scheme.exists_glide (.refl hreachable) htasks h
    exact ⟨last, b, actions, hact, hglide, hlast⟩
  · rintro last ⟨next, actions, hnext, hglide, hlast⟩
    obtain rfl : b = next := Option.some.inj (hact.symm.trans hnext)
    have hfollows : Follows s b t P Q b := .underway (.refl hreachable) htasks h
    cases hfollows.glide scheme hglide with
    | underway _ hone _ => simp [hlast] at hone
    | ended hsince _ hQ => exact ⟨_, _, hsince, hQ⟩

end World

end FaxClient.Pool
