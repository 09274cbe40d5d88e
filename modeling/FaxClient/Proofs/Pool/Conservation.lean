import FaxClient.Proofs.Pool.Whereabouts

/-!
# No session is lost

Beside a run annals are kept: which teardowns have begun and how each session was found, which of
them are over, which sessions were let go of, and which their holders took leave of.  With them every
session that was ever connected is in one place at every moment: it is being logged in, it is idle, a
caller has it, it is in its teardown or past it, or it was let go of.

Teardowns balance in the same way.  Those that have begun are under way, over, or broken off, so none
begins twice; and the requests to close that a session has had are those of its teardown and those of
its holder.
-/

namespace FaxClient.Pool

structure Annals where
  begun : List (Line × Ending)
  ended : List Line
  /-- The sessions that were let go of before their teardown had begun. -/
  dropped : List Line
  /-- The sessions whose teardown was broken off. -/
  brokenOff : List Line
  /-- The sessions of which their holders took leave, each time. -/
  parted : List Line

namespace Annals

def empty : Annals := ⟨[], [], [], [], []⟩

/-- The annals after an action that can happen. -/
def after (s : Settings) (w : World) (n : Annals) : Action → Annals
  | .advance t signal =>
    match w.task? t with
    | none => n
    | some task =>
      { n with
        begun := n.begun ++ task.begins s w.isOpen signal
        ended := n.ended ++ task.ends w.isOpen
        parted := n.parted ++ task.parts }
  | .abandon t =>
    match w.task? t with
    | none => n
    | some task =>
      { n with dropped := n.dropped ++ task.dropped, brokenOff := n.brokenOff ++ task.closing }
  | .letGo id => { n with dropped := n.dropped ++ lines (w.holding? id).toList }
  | _ => n

/-- How often a session was asked to close in its teardowns. -/
def calls (n : Annals) (line : Line) : ℕ :=
  (n.begun.map fun b => if b.1 = line then b.2.calls else 0).sum

end Annals

namespace World

variable {s : Settings} {w w' : World} {n : Annals} {t : TaskId} {task : Task}

/-- A world that a pool can come to, whatever its sessions are, with the annals of the run. -/
inductive Recorded (s : Settings) : World → Annals → Prop
  | start : Recorded s start .empty
  | act {w w' : World} {n : Annals} (a : Action) (h : Recorded s w n)
      (hact : w.act s a = some w') : Recorded s w' (n.after s w a)
  | report {w : World} {n : Annals} (dead : List Line) (h : Recorded s w n) :
      Recorded s { w with dead := dead } n

theorem Recorded.unfolds (h : Recorded s w n) : Unfolds s World.start w := by
  induction h with
  | start => exact .refl
  | act a _ hact ih => exact ih.tail (.act a hact)
  | report dead _ ih => exact ih.tail (.report dead)

theorem Recorded.sound (h : Recorded s w n) : w.Sound := Unfolds.sound h.unfolds sound_start

/-! ## Sums over tasks -/

/-- What all the tasks have of something. -/
def overall (f : Task → List Line) (w : World) : Multiset Line :=
  (w.tasks.map fun p => (f p.2 : Multiset Line)).sum

theorem coe_flatMap (f : Task → List Line) (w : World) :
    (w.tasks.flatMap (fun p => f p.2) : Multiset Line) = w.overall f := by
  unfold overall
  induction w.tasks with
  | nil => rfl
  | cons p tasks ih =>
    rw [List.flatMap_cons, ← Multiset.coe_add, ih, List.map_cons, List.sum_cons]

theorem overall_launch (f : Task → List Line) (w : World) (t : TaskId) (errand : Errand) :
    (w.launch t errand).overall f = w.overall f + f ⟨errand, .ready⟩ := by
  simp [overall, launch]

theorem overall_without (f : Task → List Line) (hw : w.Orderly) (htask : w.task? t = some task) :
    w.overall f = (w.without t).overall f + f task := by
  obtain ⟨before, rest, hsplit, hwithout, -⟩ := hw.exists_tasks_eq htask
  simp only [overall, hwithout, hsplit, List.map_append, List.map_cons, List.sum_append,
    List.sum_cons]
  abel

def nextOf (f : Task → List Line) : Progress → List Line
  | .running t => f t
  | .finished _ => []

/-- To be ready and to wait for the bell are the same to what is summed. -/
theorem overall_after (f : Task → List Line) (hw : w.Orderly) (htask : w.task? t = some task)
    (hready : ∀ errand limit, f ⟨errand, .ready⟩ = f ⟨errand, .parked limit⟩) (signal : Signal)
    (step : Step) :
    (w.after t signal step).overall f = (w.without t).overall f + nextOf f step.progress := by
  obtain ⟨ledger, ring, progress⟩ := step
  cases progress with
  | running next =>
    let mid : World := { w with
      ledger := ledger
      lines := w.linesAfter signal
      bell := (w.bell.leave t).ring ring }
    have hmid : mid.Orderly := hw.of_sublist (List.Sublist.refl _)
    obtain ⟨next', htasks, hnext⟩ := exists_tasks_put mid t next
    have hsame : f next' = f next := by
      rcases hnext with rfl | ⟨⟨limit, hdoing⟩, rfl⟩
      · rfl
      · obtain ⟨errand, doing⟩ := next
        obtain rfl : doing = .parked limit := hdoing
        exact hready errand limit
    obtain ⟨before, rest, -, hwithout, hwith⟩ := hmid.exists_tasks_eq htask
    have hwithout : (w.without t).tasks = before ++ rest := hwithout
    have hafter : (w.after t signal ⟨ledger, ring, .running next⟩).tasks =
        before ++ (t, next') :: rest := htasks.trans (hwith next')
    simp only [overall, hafter, hwithout, nextOf, List.map_append, List.map_cons, List.sum_append,
      List.sum_cons, hsame]
    abel
  | finished o =>
    simp only [overall, after, tasks_finish, nextOf]
    exact (add_zero _).symm

/-! ## What a task leaves of a world when it goes on -/

theorem linesAfter_eq (w : World) (signal : Signal) :
    w.linesAfter signal = signal.line?.toList ++ w.lines := by
  cases signal <;> rfl

theorem lines_put (w : World) (t : TaskId) (task : Task) : (w.put t task).lines = w.lines := by
  have hnote : ∀ (w : World) (task : Task), (w.note task).lines = w.lines := by
    intro w task
    unfold note
    split <;> rfl
  unfold put
  split
  · rfl
  · exact hnote _ _

theorem lines_after (w : World) (t : TaskId) (signal : Signal) (step : Step) :
    (w.after t signal step).lines = signal.line?.toList ++ w.lines := by
  rw [← linesAfter_eq]
  obtain ⟨ledger, ring, progress⟩ := step
  cases progress with
  | running next => exact lines_put _ t next
  | finished o => cases o <;> rfl

theorem asked_note (w : World) (task : Task) :
    (w.note task).asked = w.asked ++ task.query?.toList := by
  unfold note
  split
  · next hquery => simp [hquery]
  · next line hquery => simp [hquery]
  · next q hq hquery => simp [hquery]

theorem asked_put (w : World) (t : TaskId) (task : Task) :
    (w.put t task).asked = w.asked ++ task.query?.toList := by
  unfold put
  split
  · next limit hdoing =>
    have hquery : task.query? = none := by
      obtain ⟨errand, doing⟩ := task
      obtain rfl : doing = .parked limit := hdoing
      rfl
    simp [hquery]
  · exact asked_note _ _

/-- How often a session was asked to close. -/
def closes (w : World) (line : Line) : ℕ := w.asked.count (.close line)

theorem count_close (line : Line) (asked : List Query) :
    asked.count (.close line) = (asked.filterMap Query.closed?).count line := by
  induction asked with
  | nil => rfl
  | cons q asked ih =>
    cases q with
    | close other =>
      by_cases hother : other = line
      · subst hother
        simp [Query.closed?, ih]
      · simp [Query.closed?, ih, hother]
    | _ =>
      rw [List.count_cons_of_ne (by simp), ih]
      rfl

theorem closes_after (w : World) (t : TaskId) (signal : Signal) (step : Step) (line : Line) :
    (w.after t signal step).closes line = w.closes line + step.progress.asked.count line := by
  obtain ⟨ledger, ring, progress⟩ := step
  cases progress with
  | running next =>
    have hasked : (w.after t signal ⟨ledger, ring, .running next⟩).asked =
        w.asked ++ next.query?.toList := asked_put _ t next
    have hnext : next.query?.toList.filterMap Query.closed? =
        (next.query?.bind Query.closed?).toList := by
      cases next.query? with
      | none => rfl
      | some q => cases q <;> rfl
    rw [closes, hasked, List.count_append, count_close line next.query?.toList, hnext]
    rfl
  | finished o => cases o <;> rfl

/-! ## The balance of sessions -/

/-- The sessions that are in the pool, in callers' hands or in tasks, and those of the annals, are
all that were ever connected. -/
structure Complete (w : World) (n : Annals) : Prop where
  unladen : ∀ p ∈ w.tasks, p.2.Unladen
  lines_nodup : w.lines.Nodup
  lines_eq : (w.lines : Multiset Line) = Pool.lines w.ledger.idle + Pool.lines w.held +
    w.overall Task.lines + n.ended + n.dropped + n.brokenOff
  begun_eq : (n.begun.map (·.1) : Multiset Line) = w.overall Task.closing + n.ended + n.brokenOff
  closes_eq : ∀ line, w.closes line = n.parted.count line + n.calls line

theorem complete_start : start.Complete .empty :=
  ⟨by simp [start], List.nodup_nil, rfl, rfl, fun _ => rfl⟩

namespace Complete

theorem unladen_of_task? (h : w.Complete n) (htask : w.task? t = some task) : task.Unladen := by
  obtain ⟨before, rest, hsplit, -⟩ := List.lookup_eq_some_iff.mp htask
  refine h.unladen (t, task) ?_
  simp [hsplit]

end Complete

theorem lines_held_finish (w : World) (t : TaskId) (o : Outcome) :
    Pool.lines (w.finish t o).held = Pool.lines w.held ++ o.lines := by
  cases o <;> simp [finish, without, Outcome.lines, Pool.lines]

theorem lines_held_after (w : World) (t : TaskId) (signal : Signal) (step : Step) :
    (Pool.lines (w.after t signal step).held + nextOf Task.lines step.progress : Multiset Line) =
      Pool.lines w.held + step.progress.lines := by
  obtain ⟨ledger, ring, progress⟩ := step
  cases progress with
  | running next =>
    have hheld : (w.after t signal ⟨ledger, ring, .running next⟩).held = w.held :=
      (puts_put _ t next).held_eq
    rw [hheld]
    rfl
  | finished o =>
    simp only [after, lines_held_finish, nextOf, ← Multiset.coe_add]
    exact add_zero _

theorem unladen_after {signal : Signal} {step : Step} (h : ∀ p ∈ w.tasks, p.2.Unladen)
    (hstep : ∀ next, step.progress = .running next → next.Unladen) :
    ∀ p ∈ (w.after t signal step).tasks, p.2.Unladen := by
  obtain ⟨ledger, ring, progress⟩ := step
  intro p hp
  cases progress with
  | running next =>
    obtain ⟨next', htasks, hnext⟩ := exists_tasks_put { w with
      ledger := ledger
      lines := w.linesAfter signal
      bell := (w.bell.leave t).ring ring } t next
    rw [after, htasks] at hp
    obtain ⟨q, hq, rfl⟩ := List.mem_map.mp hp
    split
    · rcases hnext with rfl | ⟨-, rfl⟩
      · exact hstep next' rfl
      · exact Task.unladen_of_not_creating rfl
    · exact h q hq
  | finished o =>
    rw [after, tasks_finish] at hp
    exact h p (List.mem_of_mem_filter hp)

theorem lines_nodup_after {signal : Signal} (h : w.lines.Nodup)
    (hadmits : w.admits t signal = true) (step : Step) :
    (w.after t signal step).lines.Nodup := by
  rw [lines_after]
  cases signal with
  | connected line =>
    have hnew : line ∉ w.lines := by simpa [admits] using hadmits
    exact List.nodup_cons.mpr ⟨hnew, h⟩
  | _ => exact h

theorem Complete.advance {signal : Signal} {step : Step} (h : w.Complete n) (hw : w.Orderly)
    (htask : w.task? t = some task) (hadmits : w.admits t signal = true)
    (hstep : task.step s w.now w.isOpen w.ledger signal = some step) :
    (w.after t signal step).Complete (n.after s w (.advance t signal)) := by
  obtain ⟨hlines, hclosing, hasked, hunladen⟩ :=
    Task.conserves_step (hw.proper_of_task? htask) (h.unladen_of_task? htask) hstep
  have hannals : n.after s w (.advance t signal) = { n with
      begun := n.begun ++ task.begins s w.isOpen signal
      ended := n.ended ++ task.ends w.isOpen
      parted := n.parted ++ task.parts } := by
    simp [Annals.after, htask]
  rw [hannals]
  refine ⟨unladen_after h.unladen hunladen, lines_nodup_after h.lines_nodup hadmits step, ?_, ?_, ?_⟩
  · have hheld := lines_held_after w t signal step
    have hafter := overall_after Task.lines hw htask
      (fun errand limit => by simp [Task.lines, Doing.lines]) signal step
    have hwithout := overall_without Task.lines hw htask
    have hbefore := h.lines_eq
    rw [ledger_after, lines_after]
    ext line
    apply_fun Multiset.count line at hlines hheld hafter hwithout hbefore
    simp only [Multiset.count_add, Multiset.coe_count, List.count_append] at *
    omega
  · have hafter := overall_after Task.closing hw htask
      (fun errand limit => by simp [Task.closing, Doing.isClosing]) signal step
    have hwithout := overall_without Task.closing hw htask
    have hbefore := h.begun_eq
    have hnext : step.progress.closing = nextOf Task.closing step.progress := by
      cases step.progress <;> rfl
    rw [hnext] at hclosing
    ext line
    apply_fun Multiset.count line at hclosing hafter hwithout hbefore
    simp only [Multiset.count_add, Multiset.coe_count, List.count_append, List.map_append] at *
    omega
  · intro line
    have hbefore := h.closes_eq line
    have hstep := hasked line
    rw [closes_after, List.count_append]
    simp only [Annals.calls, List.map_append, List.sum_append] at *
    omega

theorem Complete.abandon (h : w.Complete n) (hw : w.Orderly) (htask : w.task? t = some task)
    (ring : Ring) : World.Complete { w.without t with
      ledger := (task.abandon w.ledger).1
      bell := (w.bell.desert t).ring ring
      held := w.held ++ task.lent?.toList } (n.after s w (.abandon t)) := by
  have hannals : n.after s w (.abandon t) = { n with
      dropped := n.dropped ++ task.dropped, brokenOff := n.brokenOff ++ task.closing } := by
    simp [Annals.after, htask]
  have hidle : (task.abandon w.ledger).1.idle = w.ledger.idle := Task.idle_abandon _ _
  have hoverall (f : Task → List Line) : World.overall f { w.without t with
      ledger := (task.abandon w.ledger).1
      bell := (w.bell.desert t).ring ring
      held := w.held ++ task.lent?.toList } = (w.without t).overall f := rfl
  rw [hannals]
  refine ⟨fun p hp => h.unladen p (List.mem_of_mem_filter hp), h.lines_nodup, ?_, ?_, h.closes_eq⟩
  · have htaskLines := Task.lines_eq_of_abandon task
    have hwithout := overall_without Task.lines hw htask
    have hbefore := h.lines_eq
    rw [hoverall, hidle, coe_lines_append]
    ext line
    apply_fun Multiset.count line at htaskLines hwithout hbefore
    simp only [Multiset.count_add, Multiset.coe_count, List.count_append, without] at *
    omega
  · have hwithout := overall_without Task.closing hw htask
    have hbefore := h.begun_eq
    rw [hoverall]
    ext line
    apply_fun Multiset.count line at hwithout hbefore
    simp only [Multiset.count_add, Multiset.coe_count, List.count_append] at *
    omega

/-- Only who has the sessions is another. -/
theorem Complete.moved {dropped : List Line} (h : w.Complete n)
    (hunladen : ∀ p ∈ w'.tasks, p.2.Unladen) (hlines : w'.lines = w.lines)
    (hclosing : w'.overall Task.closing = w.overall Task.closing) (hasked : w'.asked = w.asked)
    (hmoved : (Pool.lines w.ledger.idle + Pool.lines w.held + w.overall Task.lines + n.dropped :
      Multiset Line) =
        Pool.lines w'.ledger.idle + Pool.lines w'.held + w'.overall Task.lines + dropped) :
    w'.Complete { n with dropped := dropped } := by
  refine ⟨hunladen, hlines ▸ h.lines_nodup, ?_, hclosing ▸ h.begun_eq, fun line => ?_⟩
  · calc (w'.lines : Multiset Line)
      _ = Pool.lines w.ledger.idle + Pool.lines w.held + w.overall Task.lines + n.dropped +
          n.ended + n.brokenOff := by
        rw [hlines, h.lines_eq, add_right_comm _ (n.ended : Multiset Line)]
      _ = Pool.lines w'.ledger.idle + Pool.lines w'.held + w'.overall Task.lines + dropped +
          n.ended + n.brokenOff := by rw [hmoved]
      _ = Pool.lines w'.ledger.idle + Pool.lines w'.held + w'.overall Task.lines + n.ended +
          dropped + n.brokenOff := by rw [add_right_comm _ (dropped : Multiset Line)]
  · rw [closes, hasked]
    exact h.closes_eq line

theorem unladen_launch (h : ∀ p ∈ w.tasks, p.2.Unladen) (t : TaskId) (errand : Errand) :
    ∀ p ∈ (w.launch t errand).tasks, p.2.Unladen := by
  intro p hp
  rcases List.mem_append.mp hp with hp | hp
  · exact h p hp
  · obtain rfl := List.mem_singleton.mp hp
    exact Task.unladen_of_not_creating rfl

theorem closing_launch (w : World) (t : TaskId) (errand : Errand) :
    (w.launch t errand).overall Task.closing = w.overall Task.closing :=
  (overall_launch _ w t errand).trans (add_zero _)

theorem lines_launch (w : World) (t : TaskId) (errand : Errand) :
    (w.launch t errand).overall Task.lines = w.overall Task.lines + errand.lines := by
  rw [overall_launch, Task.lines, Doing.lines, List.append_nil]

theorem lines_held_eq {id : MemberId} {m : Member} (hnodup : (memberIds w.held).Nodup)
    (hm : w.holding? id = some m) : (Pool.lines w.held : Multiset Line) =
      Pool.lines (w.notHolding id).held + ([m.line] : List Line) := by
  obtain ⟨before, rest, hsplit, hheld⟩ := exists_held_eq hnodup hm
  calc (Pool.lines w.held : Multiset Line)
    _ = Pool.lines before + (Pool.lines rest + ([m.line] : List Line)) := by
      rw [hsplit, coe_lines_append, coe_lines_cons]
    _ = Pool.lines (w.notHolding id).held + ([m.line] : List Line) := by
      rw [hheld, coe_lines_append, add_assoc]

theorem Complete.use {id : MemberId} {m : Member} (h : w.Complete n)
    (hnodup : (memberIds w.held).Nodup) (hm : w.holding? id = some m) (use : Use) :
    ((w.notHolding id).launch t (use.errand m)).Complete n := by
  refine h.moved (unladen_launch h.unladen _ _) rfl (closing_launch _ _ _) rfl ?_
  have herrand : (use.errand m).lines = [m.line] := by cases use <;> rfl
  have hoverall : (w.notHolding id).overall Task.lines = w.overall Task.lines := rfl
  rw [lines_launch, herrand, hoverall, lines_held_eq hnodup hm]
  simp only [launch, notHolding]
  abel

theorem Complete.letGo {id : MemberId} {m : Member} (h : w.Complete n)
    (hnodup : (memberIds w.held).Nodup) (hm : w.holding? id = some m) (bell : Bell) :
    World.Complete { w.notHolding id with ledger := w.ledger.abandon id, bell := bell }
      (n.after s w (.letGo id)) := by
  refine h.moved h.unladen rfl rfl rfl ?_
  have hidle : (w.ledger.abandon id).idle = w.ledger.idle := rfl
  have hoverall : World.overall Task.lines
      { w.notHolding id with ledger := w.ledger.abandon id, bell := bell } =
        w.overall Task.lines := rfl
  have hheld : Pool.lines (w.holding? id).toList = [m.line] := by rw [hm]; rfl
  rw [hidle, hoverall, hheld, lines_held_eq hnodup hm, ← Multiset.coe_add]
  abel

theorem lines_invalidate (held : List Member) (id : MemberId) :
    Pool.lines (held.map fun m => if m.id = id then { m with valid := false } else m) =
      Pool.lines held := by
  rw [Pool.lines, List.map_map, Pool.lines]
  refine List.map_congr_left fun m _ => ?_
  by_cases hm : m.id = id <;> simp [hm]

theorem Complete.act {a : Action} (h : w.Complete n) (hw : w.Sound) (hact : w.act s a = some w') :
    w'.Complete (n.after s w a) := by
  cases acted hact with
  | begin t call hfresh =>
    refine h.moved (unladen_launch h.unladen _ _) rfl (closing_launch _ _ _) rfl ?_
    have herrand : (w.errand s call).lines = [] := by cases call <;> rfl
    rw [lines_launch, herrand, Multiset.coe_nil, add_zero]
    rfl
  | use t id use m hfresh hm => exact h.use hw.held_nodup hm use
  | advance t signal task step htask hadmits hstep => exact h.advance hw.orderly htask hadmits hstep
  | abandon t task htask => exact h.abandon hw.orderly htask _
  | letGo id m hm => exact h.letGo hw.held_nodup hm _
  | invalidate id m hm =>
    refine h.moved h.unladen rfl rfl rfl ?_
    rw [lines_invalidate]
    rfl
  | die line => exact h.moved h.unladen rfl rfl rfl rfl
  | wait time htime => exact h.moved h.unladen rfl rfl rfl rfl

theorem Recorded.complete (h : Recorded s w n) : w.Complete n := by
  induction h with
  | start => exact complete_start
  | act a hsofar hact ih => exact ih.act hsofar.sound hact
  | report dead _ ih => exact ih.moved ih.unladen rfl rfl rfl rfl

end World

/-! ## Places -/

inductive Place where
  | loggingIn
  | idle
  /-- A caller has it, or a task on its behalf. -/
  | held
  /-- It is torn down, or is to be, or has been. -/
  | teardown
  /-- It was let go of, by its holder or with a task. -/
  | dropped
  deriving DecidableEq

namespace Place

instance : Fintype Place where
  elems := {loggingIn, idle, held, teardown, dropped}
  complete := fun p => by cases p <;> decide

theorem sum_eq {M : Type*} [AddCommMonoid M] (f : Place → M) :
    ∑ p, f p = f loggingIn + (f idle + (f held + (f teardown + f dropped))) := by
  have huniv : (Finset.univ : Finset Place) = {loggingIn, idle, held, teardown, dropped} := rfl
  simp [huniv]

end Place

def Errand.doomed : Errand → List Line
  | .drain left _ | .renew left _ => Pool.lines left
  | _ => []

def Doing.doomed : Doing → List Line
  | .discarding m | .closing m _ | .creating (.closing m _ _) => [m.line]
  | _ => []

namespace Task

def loggingIn (t : Task) : List Line :=
  match t.doing with
  | .creating (.loggingIn m _ _) | .creating (.ended (.ok m)) => [m.line]
  | _ => []

/-- The sessions that a task tears down, or is to. -/
def doomed (t : Task) : List Line := t.errand.doomed ++ t.doing.doomed

/-- A session of a task is being logged in, or is a caller's, or is torn down. -/
theorem coe_lines (t : Task) : (t.lines : Multiset Line) =
    (t.loggingIn : Multiset Line) + Pool.lines t.held?.toList + t.doomed := by
  obtain ⟨errand, doing⟩ := t
  have herrand : errand.lines = Pool.lines (held? ⟨errand, doing⟩).toList ++ errand.doomed := by
    cases errand <;> rfl
  have hdoing : doing.lines = loggingIn ⟨errand, doing⟩ ++ doing.doomed := by
    cases doing with
    | creating c =>
      cases c with
      | ended result => cases result <;> rfl
      | _ => rfl
    | _ => rfl
  rw [lines, doomed, herrand, hdoing]
  simp only [← Multiset.coe_add]
  abel

end Task

namespace World

variable {s : Settings} {w w' : World} {n n' : Annals} {actions : List Action}

/-- The sessions in a place. -/
def linesAt (w : World) (n : Annals) : Place → List Line
  | .loggingIn => w.tasks.flatMap fun p => p.2.loggingIn
  | .idle => Pool.lines w.ledger.idle
  | .held => Pool.lines w.bearers
  | .teardown => w.tasks.flatMap (fun p => p.2.doomed) ++ n.ended
  | .dropped => n.dropped ++ n.brokenOff

theorem overall_lines (w : World) : w.overall Task.lines = w.overall Task.loggingIn +
    w.overall (fun t => Pool.lines t.held?.toList) + w.overall Task.doomed := by
  simp only [overall, Task.coe_lines, List.sum_map_add]

theorem lines_bearers (w : World) : (Pool.lines w.bearers : Multiset Line) =
    Pool.lines w.held + w.overall fun t => Pool.lines t.held?.toList := by
  rw [bearers, coe_lines_append, ← coe_flatMap, List.filterMap_eq_flatMap_toList]
  simp only [Pool.lines, List.map_flatMap]

theorem Complete.lines_eq_sum (h : w.Complete n) :
    (w.lines : Multiset Line) = ∑ p, (w.linesAt n p : Multiset Line) := by
  rw [h.lines_eq, Place.sum_eq, overall_lines]
  simp only [linesAt, coe_flatMap, lines_bearers, ← Multiset.coe_add]
  abel

theorem Complete.count_eq_sum (h : w.Complete n) (line : Line) :
    w.lines.count line = ∑ p, (w.linesAt n p).count line := by
  rw [← Multiset.coe_count, h.lines_eq_sum, Multiset.count_sum']
  simp only [Multiset.coe_count]

theorem Complete.sum_count_le (h : w.Complete n) (line : Line) :
    ∑ p, (w.linesAt n p).count line ≤ 1 := by
  rw [← h.count_eq_sum]
  exact List.nodup_iff_count_le_one.mp h.lines_nodup line

theorem Complete.exists_unique_place (h : w.Complete n) {line : Line} (hline : line ∈ w.lines) :
    ∃! p, line ∈ w.linesAt n p := by
  have hsomewhere : ∑ p, (w.linesAt n p).count line ≠ 0 := by
    rw [← h.count_eq_sum]
    exact (List.count_pos_iff.mpr hline).ne'
  obtain ⟨p, -, hp⟩ := Finset.exists_ne_zero_of_sum_ne_zero hsomewhere
  have hp : line ∈ w.linesAt n p := List.count_pos_iff.mp (Nat.pos_of_ne_zero hp)
  refine ⟨p, hp, fun q hq => ?_⟩
  by_contra hne
  -- A session in two places would count twice.
  have hboth := Finset.add_le_sum (f := fun p => (w.linesAt n p).count line)
    (fun _ _ => Nat.zero_le _) (Finset.mem_univ p) (Finset.mem_univ q) (Ne.symm hne)
  have hle := h.sum_count_le line
  have hp : 0 < (w.linesAt n p).count line := List.count_pos_iff.mpr hp
  have hq : 0 < (w.linesAt n q).count line := List.count_pos_iff.mpr hq
  omega

/-! ## Teardowns -/

theorem overall_closing_le (w : World) : w.overall Task.closing ≤ w.overall Task.doomed := by
  refine List.sum_le_sum fun p _ => ?_
  obtain ⟨t, errand, doing⟩ := p
  have hdoing : (if doing.isClosing then doing.lines else []).Sublist doing.doomed := by
    cases doing with
    | creating c => cases c <;> simp [Doing.isClosing, Doing.lines, Creation.lines, Doing.doomed]
    | _ => simp [Doing.isClosing, Doing.lines, Doing.doomed]
  exact Multiset.coe_le.mpr (hdoing.trans (List.sublist_append_right _ _)).subperm

/-- A session whose teardown has begun is past it, unless the teardown was broken off. -/
theorem Complete.begun_le (h : w.Complete n) : (n.begun.map (·.1) : Multiset Line) ≤
    (w.linesAt n .teardown : Multiset Line) + w.linesAt n .dropped := by
  rw [h.begun_eq]
  simp only [linesAt, coe_flatMap, ← Multiset.coe_add]
  exact add_le_add (add_le_add_left (overall_closing_le w) _) (Multiset.le_add_left _ _)

theorem Complete.begun_nodup (h : w.Complete n) : (n.begun.map (·.1)).Nodup := by
  refine List.nodup_iff_count_le_one.mpr fun line => ?_
  have hle := Multiset.count_le_of_le line h.begun_le
  have hsum := h.sum_count_le line
  rw [Multiset.count_add, Multiset.coe_count, Multiset.coe_count, Multiset.coe_count] at hle
  rw [Place.sum_eq] at hsum
  omega

end World

theorem Annals.calls_of_notMem {n : Annals} {line : Line} (h : line ∉ n.begun.map (·.1)) :
    n.calls line = 0 := by
  refine List.sum_eq_zero fun k hk => ?_
  obtain ⟨b, hb, rfl⟩ := List.mem_map.mp hk
  refine if_neg ?_
  rintro rfl
  exact h (List.mem_map_of_mem hb)

theorem Annals.calls_of_mem {n : Annals} {b : Line × Ending} (hnodup : (n.begun.map (·.1)).Nodup)
    (hb : b ∈ n.begun) : n.calls b.1 = b.2.calls := by
  obtain ⟨before, rest, hsplit⟩ := List.append_of_mem hb
  have hothers : Annals.calls { n with begun := before ++ rest } b.1 = 0 := by
    refine calls_of_notMem ?_
    rw [hsplit, List.map_append, List.map_cons, List.nodup_middle, ← List.map_append] at hnodup
    exact (List.nodup_cons.mp hnodup).1
  simp only [calls, hsplit, List.map_append, List.map_cons, List.sum_append, List.sum_cons,
    if_true] at hothers ⊢
  omega

namespace World

variable {s : Settings} {w w' : World} {n n' : Annals} {actions : List Action}

/-! ## Every run -/

theorem Unfolds.exists_recorded (h : Unfolds s start w) : ∃ n, Recorded s w n := by
  induction h with
  | refl => exact ⟨_, .start⟩
  | tail _ hturn ih =>
    obtain ⟨n, hn⟩ := ih
    cases hturn with
    | act a hact => exact ⟨_, hn.act a hact⟩
    | report dead => exact ⟨n, hn.report dead⟩

/-- No session is lost, and none is torn down twice. -/
structure Conserved (w : World) (n : Annals) : Prop where
  placed : ∀ line ∈ w.lines, ∃! p, line ∈ w.linesAt n p
  connected : ∀ p, ∀ line ∈ w.linesAt n p, line ∈ w.lines
  length_eq : w.lines.length = ∑ p, (w.linesAt n p).length
  begun_nodup : (n.begun.map (·.1)).Nodup
  placed_of_begun : ∀ line ∈ n.begun.map (·.1),
    line ∈ w.linesAt n .teardown ∨ line ∈ w.linesAt n .dropped
  begun_of_ended : ∀ line ∈ n.ended, line ∈ n.begun.map (·.1)
  /-- Besides its holder's requests, a session is asked to close as its teardown begins, if it was
  open then or its login had failed. -/
  closes_of_begun : ∀ b ∈ n.begun, w.closes b.1 = n.parted.count b.1 + b.2.calls
  closes_of_not_begun : ∀ line ∉ n.begun.map (·.1), w.closes line = n.parted.count line

theorem Complete.conserved (h : w.Complete n) : w.Conserved n where
  placed := fun line hline => h.exists_unique_place hline
  connected := fun p line hline => by
    have hmem : line ∈ ∑ p, (w.linesAt n p : Multiset Line) :=
      Multiset.mem_sum.mpr ⟨p, Finset.mem_univ p, Multiset.mem_coe.mpr hline⟩
    rw [← h.lines_eq_sum] at hmem
    exact Multiset.mem_coe.mp hmem
  length_eq := by
    have hcard := congrArg Multiset.card h.lines_eq_sum
    simpa [Multiset.card_sum] using hcard
  begun_nodup := h.begun_nodup
  placed_of_begun := fun line hline => by
    have hmem := Multiset.mem_of_le h.begun_le (Multiset.mem_coe.mpr hline)
    simpa using hmem
  begun_of_ended := fun line hline => by
    rw [← Multiset.mem_coe, h.begun_eq]
    simp [hline]
  closes_of_begun := fun b hb => by rw [h.closes_eq, Annals.calls_of_mem h.begun_nodup hb]
  closes_of_not_begun := fun line hline => by
    rw [h.closes_eq, Annals.calls_of_notMem hline, add_zero]

/-- However a pool comes about, annals of it can be kept, and they account for every session. -/
theorem sessions_conserved (h : Unfolds s start w) :
    (∃ n, Recorded s w n) ∧ ∀ n, Recorded s w n → w.Conserved n :=
  ⟨h.exists_recorded, fun _ hn => hn.complete.conserved⟩

/-- A run with its annals. -/
def chronicle (s : Settings) : World → Annals → List Action → Option (World × Annals)
  | w, n, [] => some (w, n)
  | w, n, a :: rest => (w.act s a).bind fun next => chronicle s next (n.after s w a) rest

theorem Recorded.chronicle (h : Recorded s w n)
    (hrun : w.chronicle s n actions = some (w', n')) : Recorded s w' n' := by
  induction actions generalizing w n with
  | nil =>
    obtain ⟨rfl, rfl⟩ : w = w' ∧ n = n' := by simpa [World.chronicle] using hrun
    exact h
  | cons a actions ih =>
    obtain ⟨next, hact, hrest⟩ := Option.bind_eq_some_iff.mp hrun
    exact ih (h.act a hact) hrest

/-- A session is connected for a caller, and its only request is answered. -/
def connecting (t : TaskId) (line : Line) (reply : Reply) : List Action :=
  [.begin t .acquire, .advance t .go, .advance t .go, .advance t (.connected line),
    .advance t (.replied (.ok reply))]

def joining (t : TaskId) (line : Line) : List Action :=
  connecting t line ⟨230, "OK"⟩ ++ [.advance t .go, .advance t .go]

/-- Six sessions: a login fails, a session dies before it is given back, one is found unfit and its
teardown is broken off, one is kept, one stays with its holder, and one is being logged in. -/
def sixSessions : List Action := List.flatten
  [joining ⟨1⟩ ⟨1⟩, joining ⟨2⟩ ⟨2⟩, joining ⟨3⟩ ⟨3⟩, joining ⟨4⟩ ⟨4⟩,
    connecting ⟨5⟩ ⟨5⟩ ⟨530, "No."⟩, [.advance ⟨5⟩ (.closed (.ok ()))],
    [.die ⟨2⟩, .use ⟨6⟩ ⟨2⟩ .release, .advance ⟨6⟩ .go, .advance ⟨6⟩ .go, .advance ⟨6⟩ .go,
      .advance ⟨6⟩ (.connected ⟨6⟩)],
    [.invalidate ⟨3⟩, .use ⟨7⟩ ⟨3⟩ .release, .advance ⟨7⟩ .go, .advance ⟨7⟩ .go, .abandon ⟨7⟩],
    [.use ⟨8⟩ ⟨1⟩ .release, .advance ⟨8⟩ .go]]

def named : Settings := { Settings.default with username := some "fax" }

/-- The world after `sixSessions`. -/
def sixPlaced : World where
  now := 0
  ledger := ⟨[⟨⟨1⟩, ⟨1⟩, false, true⟩], [⟨4⟩, ⟨1⟩], [⟨4⟩], [], 2, false, 4, [⟨3⟩, ⟨2⟩], ⟨7⟩⟩
  bell := ⟨true, [], [], []⟩
  tasks := [(⟨5⟩, ⟨.grow 30000, .creating (.ended (.error (.unexpected ⟨530, "No."⟩)))⟩),
    (⟨6⟩, ⟨.replace false, .creating (.loggingIn ⟨⟨6⟩, ⟨6⟩, false, true⟩ (.user "fax") [])⟩)]
  finished := [(⟨1⟩, .acquired ⟨⟨1⟩, ⟨1⟩, true, true⟩), (⟨2⟩, .acquired ⟨⟨2⟩, ⟨2⟩, true, true⟩),
    (⟨3⟩, .acquired ⟨⟨3⟩, ⟨3⟩, true, true⟩), (⟨4⟩, .acquired ⟨⟨4⟩, ⟨4⟩, true, true⟩),
    (⟨8⟩, .released)]
  held := [⟨⟨4⟩, ⟨4⟩, true, true⟩]
  lines := [⟨6⟩, ⟨5⟩, ⟨4⟩, ⟨3⟩, ⟨2⟩, ⟨1⟩]
  dead := [⟨3⟩, ⟨2⟩, ⟨5⟩]
  asked := [.connect, .send ⟨1⟩ ⟨"USER", some "fax"⟩, .connect, .send ⟨2⟩ ⟨"USER", some "fax"⟩,
    .connect, .send ⟨3⟩ ⟨"USER", some "fax"⟩, .connect, .send ⟨4⟩ ⟨"USER", some "fax"⟩,
    .connect, .send ⟨5⟩ ⟨"USER", some "fax"⟩, .close ⟨5⟩, .connect,
    .send ⟨6⟩ ⟨"USER", some "fax"⟩, .close ⟨3⟩]

def sixAnnals : Annals :=
  ⟨[(⟨5⟩, .refused), (⟨2⟩, .lost), (⟨3⟩, .dismissed)], [⟨5⟩, ⟨2⟩], [], [⟨3⟩], []⟩

/-- Of the sessions that were torn down two were asked to close, and one was not open any more. -/
theorem sessions_conserved_sixSessions :
    start.chronicle named .empty sixSessions = some (sixPlaced, sixAnnals) ∧
      [Place.loggingIn, .idle, .held, .teardown, .dropped].map (sixPlaced.linesAt sixAnnals) =
        [[⟨6⟩], [⟨1⟩], [⟨4⟩], [⟨5⟩, ⟨2⟩], [⟨3⟩]] ∧
      [sixPlaced.closes ⟨5⟩, sixPlaced.closes ⟨2⟩, sixPlaced.closes ⟨3⟩] = [1, 0, 1] ∧
      Recorded named sixPlaced sixAnnals ∧ sixPlaced.Conserved sixAnnals := by
  have hrun : start.chronicle named .empty sixSessions = some (sixPlaced, sixAnnals) := rfl
  have hrecorded := Recorded.start.chronicle hrun
  refine ⟨hrun, rfl, rfl, hrecorded, ?_⟩
  exact (sessions_conserved hrecorded.unfolds).2 sixAnnals hrecorded

end World

end FaxClient.Pool
