import FaxClient.Proofs.Pool.Conservation
import FaxClient.Proofs.Pool.Exhaustion

/-!
# What one task does among others

Between two steps of a task all the others may do what they like.  What is noted at each step of a
task, in order, is its trail.  A law that tells of the trail so far and of what the task is doing is
kept by whatever the others do, for all that they can do to the task is to abandon it; so it holds
whenever the task is still under way, if the task's own steps keep it.
-/

namespace FaxClient.Pool

/-- What a task asks as soon as it has taken a step. -/
def Progress.queries : Progress → List Query
  | .running t => t.query?.toList
  | .finished _ => []

theorem Progress.asked_eq_filterMap (p : Progress) :
    p.asked = p.queries.filterMap Query.closed? := by
  cases p with
  | finished o => rfl
  | running t =>
    rw [asked, queries]
    cases t.query? with
    | none => rfl
    | some q => cases q <;> rfl

namespace World

variable {α β : Type} {s : Settings} {w w' last : World} {t : TaskId} {a : Action}
  {actions : List Action} {mark : World → Signal → World → List α}

theorem asked_after (w : World) (t : TaskId) (signal : Signal) (st : Step) :
    (w.after t signal st).asked = w.asked ++ st.progress.queries := by
  obtain ⟨ledger, ring, progress⟩ := st
  cases progress with
  | running next => exact asked_put _ t next
  | finished o => cases o <;> exact (List.append_nil _).symm

/-! ## Trails -/

/-- What is noted at an action, if it is a step of the task. -/
def marks (mark : World → Signal → World → List α) (t : TaskId) (w : World) (a : Action)
    (next : World) : List α :=
  match a with
  | .advance t' signal => if t' = t then mark w signal next else []
  | _ => []

/-- What is noted at the steps of a task in the course of a run. -/
def trail (mark : World → Signal → World → List α) (s : Settings) (t : TaskId) :
    World → List Action → List α
  | _, [] => []
  | w, a :: rest =>
    match w.act s a with
    | none => []
    | some next => marks mark t w a next ++ trail mark s t next rest

theorem trail_cons (hact : w.act s a = some w') :
    trail mark s t w (a :: actions) = marks mark t w a w' ++ trail mark s t w' actions := by
  simp [trail, hact]

theorem trail_concat (hrun : run s w actions = some w') (hact : w'.act s a = some last) :
    trail mark s t w (actions ++ [a]) = trail mark s t w actions ++ marks mark t w' a last := by
  induction actions generalizing w with
  | nil =>
    obtain rfl := Option.some.inj hrun
    simp [trail, hact]
  | cons b actions ih =>
    obtain ⟨next, hnext, hrest⟩ := Option.bind_eq_some_iff.mp hrun
    calc trail mark s t w (b :: actions ++ [a])
      _ = marks mark t w b next ++ trail mark s t next (actions ++ [a]) := trail_cons hnext
      _ = marks mark t w b next ++ (trail mark s t next actions ++ marks mark t w' a last) := by
        rw [ih hrest]
      _ = trail mark s t w (b :: actions) ++ marks mark t w' a last := by
        rw [trail_cons hnext, List.append_assoc]

@[simp] theorem marks_advance (signal : Signal) :
    marks mark t w (.advance t signal) w' = mark w signal w' := by
  simp [marks]

theorem marks_of_ne_advance (h : ∀ signal, a ≠ .advance t signal) : marks mark t w a w' = [] := by
  cases a with
  | advance t' signal =>
    have hne : t' ≠ t := fun heq => h signal (by rw [heq])
    simp [marks, hne]
  | _ => rfl

/-- What is read off each note is read off the trail. -/
theorem trail_flatMap (f : α → List β) (actions : List Action) :
    trail (fun w signal w' => (mark w signal w').flatMap f) s t w actions =
      (trail mark s t w actions).flatMap f := by
  induction actions generalizing w with
  | nil => rfl
  | cons a actions ih =>
    cases hact : w.act s a with
    | none => simp [trail, hact]
    | some next =>
      rw [trail_cons hact, trail_cons hact, ih, List.flatMap_append]
      congr 1
      cases a with
      | advance t' signal =>
        by_cases heq : t' = t
        · simp [marks, heq]
        · simp [marks, heq]
      | _ => rfl

/-! ## Laws -/

/-- A law about the trail of a task and what it is doing, which its steps keep. -/
structure Keeps (s : Settings) (t : TaskId) (mark : World → Signal → World → List α)
    (P : List α → Task → Prop) : Prop where
  step : ∀ {w past task signal st next}, Reachable s w → w.task? t = some task →
    w.admits t signal = true → P past task →
      task.step s w.now w.isOpen w.ledger signal = some st → st.progress = .running next →
        P (past ++ mark w signal (w.after t signal st)) next
  /-- It may find a ring pending as it begins to wait. -/
  woken : ∀ {past errand limit}, P past ⟨errand, .parked limit⟩ → P past ⟨errand, .ready⟩

variable {P : List α → Task → Prop} {past : List α}

theorem task?_after_cases {task next next' : Task} {signal : Signal} {st : Step}
    (htask : w.task? t = some task) (hprogress : st.progress = .running next)
    (hnext : (w.after t signal st).task? t = some next') :
    next' = next ∨ ∃ errand limit, next = ⟨errand, .parked limit⟩ ∧ next' = ⟨errand, .ready⟩ := by
  obtain ⟨ledger, ring, progress⟩ := st
  obtain rfl : progress = .running next := hprogress
  obtain ⟨put, hput, hcases⟩ := exists_tasks_put { w with
    ledger := ledger
    lines := w.linesAfter signal
    bell := (w.bell.leave t).ring ring } t next
  obtain rfl : put = next' := by
    rw [task?, after, hput, lookup_tasksWith_self] at hnext
    have hlookup : w.tasks.lookup t = some task := htask
    simpa [task?, hlookup] using hnext
  rcases hcases with rfl | ⟨⟨limit, hparked⟩, rfl⟩
  · exact Or.inl rfl
  · obtain ⟨errand, doing⟩ := next
    obtain rfl : doing = .parked limit := hparked
    exact Or.inr ⟨errand, limit, rfl, rfl⟩

theorem Keeps.act (h : Keeps s t mark P) (hw : Reachable s w)
    (hP : ∀ task, w.task? t = some task → P past task) (hact : w.act s a = some w')
    (hlaunch : a.launches? ≠ some t) :
    ∀ task, w'.task? t = some task → P (past ++ marks mark t w a w') task := by
  intro next' hnext
  by_cases hadvance : ∃ signal, a = .advance t signal
  · obtain ⟨signal, rfl⟩ := hadvance
    rw [marks_advance]
    cases acted hact with
    | advance t signal task st htask hadmits hstep =>
      cases hprogress : st.progress with
      | running next =>
        have hkept := h.step hw htask hadmits (hP task htask) hstep hprogress
        rcases task?_after_cases htask hprogress hnext with rfl | ⟨errand, limit, rfl, rfl⟩
        · exact hkept
        · exact h.woken hkept
      | finished o =>
        rw [task?_after_finished w t signal hprogress] at hnext
        simp at hnext
  · have hadvance : ∀ signal, a ≠ .advance t signal := fun signal ha => hadvance ⟨signal, ha⟩
    rw [marks_of_ne_advance hadvance, List.append_nil]
    rcases task?_act hact hlaunch hadvance with hsame | hgone
    · exact hP next' (hsame ▸ hnext)
    · simp [hgone] at hnext

theorem Keeps.run (h : Keeps s t mark P) (hw : Reachable s w)
    (hP : ∀ task, w.task? t = some task → P past task) (hrun : World.run s w actions = some last)
    (hlaunch : ∀ a ∈ actions, a.launches? ≠ some t) :
    ∀ task, last.task? t = some task → P (past ++ trail mark s t w actions) task := by
  induction actions generalizing w past with
  | nil =>
    obtain rfl := Option.some.inj hrun
    simpa [trail] using hP
  | cons a actions ih =>
    obtain ⟨next, hact, hrest⟩ := Option.bind_eq_some_iff.mp hrun
    have hnext := h.act hw hP hact (hlaunch a List.mem_cons_self)
    have hlast := ih (hw.later (later_of_act hact)) hnext hrest
      fun b hb => hlaunch b (List.mem_cons_of_mem a hb)
    rw [trail_cons hact, ← List.append_assoc]
    exact hlast

end World

end FaxClient.Pool
