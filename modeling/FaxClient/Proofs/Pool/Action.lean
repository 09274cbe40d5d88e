import FaxClient.Proofs.Pool.Section

/-!
# Actions are made of sections

An action of a world begins or ends a task, takes a step of one, or concerns a member in a caller's
hands.  What it makes of the ledger and of the shares outside is a sequence of sections, and so is
what a whole run makes of them: this is the one rule by which something is proved of every world
that a pool can come to.
-/

namespace FaxClient.Pool

namespace World

/-- Every task goes by an id of its own. -/
structure Orderly (w : World) : Prop where
  tasks_nodup : (w.tasks.map (·.1)).Nodup
  proper : ∀ p ∈ w.tasks, p.2.Proper

variable {s : Settings} {w w' : World} {t : TaskId} {task : Task}

theorem Orderly.of_sublist (h : w.Orderly) (hsublist : List.Sublist w'.tasks w.tasks) :
    w'.Orderly where
  tasks_nodup := h.tasks_nodup.sublist (hsublist.map _)
  proper := fun p hp => h.proper p (hsublist.subset hp)

theorem Orderly.proper_of_task? (h : w.Orderly) (htask : w.task? t = some task) : task.Proper := by
  obtain ⟨before, rest, hsplit, -⟩ := List.lookup_eq_some_iff.mp htask
  refine h.proper (t, task) ?_
  simp [hsplit]

/-! ## A task goes on or ends -/

theorem filter_ne_eq_self {tasks : List (TaskId × Task)} (h : ∀ p ∈ tasks, p.1 ≠ t) :
    tasks.filter (·.1 != t) = tasks := by
  refine List.filter_eq_self.mpr fun p hp => ?_
  simpa using h p hp

theorem map_if_eq_self {tasks : List (TaskId × Task)} (h : ∀ p ∈ tasks, p.1 ≠ t) :
    (tasks.map fun p => if p.1 = t then (t, task) else p) = tasks := by
  refine (List.map_congr_left fun p hp => ?_).trans (List.map_id tasks)
  simp [h p hp]

def tasksWith (w : World) (t : TaskId) (task : Task) : List (TaskId × Task) :=
  w.tasks.map fun p => if p.1 = t then (t, task) else p

theorem map_fst_tasksWith (w : World) (t : TaskId) (task : Task) :
    (w.tasksWith t task).map (·.1) = w.tasks.map (·.1) := by
  rw [tasksWith, List.map_map]
  refine List.map_congr_left fun p _ => ?_
  by_cases hp : p.1 = t <;> simp [hp]

/-- A task has a place among the others, which they keep when it goes or is replaced. -/
theorem Orderly.exists_tasks_eq (h : w.Orderly) (htask : w.task? t = some task) :
    ∃ before rest, w.tasks = before ++ (t, task) :: rest ∧ (w.without t).tasks = before ++ rest ∧
      ∀ task', w.tasksWith t task' = before ++ (t, task') :: rest := by
  obtain ⟨before, rest, hsplit, hbefore⟩ := List.lookup_eq_some_iff.mp htask
  have hbefore : ∀ p ∈ before, p.1 ≠ t := by
    rintro p hp rfl
    simpa using hbefore p hp
  have hrest : ∀ p ∈ rest, p.1 ≠ t := by
    have hnodup := h.tasks_nodup
    rw [hsplit, List.map_append, List.map_cons] at hnodup
    have hnotMem := (List.nodup_cons.mp hnodup.of_append_right).1
    intro p hp heq
    exact hnotMem (List.mem_map.mpr ⟨p, hp, heq⟩)
  refine ⟨before, rest, hsplit, ?_, fun task' => ?_⟩
  · simp [without, hsplit, filter_ne_eq_self hbefore, filter_ne_eq_self hrest]
  · simp [tasksWith, hsplit, map_if_eq_self hbefore, map_if_eq_self hrest]

theorem share_without (h : w.Orderly) (htask : w.task? t = some task) :
    w.share = (w.without t).share + task.share := by
  obtain ⟨before, rest, hsplit, hwithout, -⟩ := h.exists_tasks_eq htask
  have hheld : (w.without t).held = w.held := rfl
  simp only [share, hwithout, hheld, hsplit, List.map_append, List.map_cons, List.sum_append,
    List.sum_cons]
  abel

/-- What `put` does, apart from the bell and what is noted of the sessions. -/
structure Puts (w : World) (t : TaskId) (task : Task) (w' : World) : Prop where
  ledger_eq : w'.ledger = w.ledger
  held_eq : w'.held = w.held
  tasks_eq : ∃ task', w'.tasks = w.tasksWith t task' ∧ task'.share = task.share ∧
    (task.Proper → task'.Proper)

theorem Puts.note {other : Task} (h : w.Puts t task w') : w.Puts t task (w'.note other) := by
  unfold World.note
  split
  · exact h
  · exact ⟨h.ledger_eq, h.held_eq, h.tasks_eq⟩
  · exact ⟨h.ledger_eq, h.held_eq, h.tasks_eq⟩

theorem puts_replace (w : World) (t : TaskId) (task : Task) :
    w.Puts t task { w with tasks := w.tasksWith t task } :=
  ⟨rfl, rfl, task, rfl, rfl, id⟩

theorem puts_put (w : World) (t : TaskId) (task : Task) : w.Puts t task (w.put t task) := by
  unfold put
  split
  · next limit hdoing =>
    -- With a ring pending there is no wait, and the task is ready at once.
    have hshare : Task.share { task with doing := .ready } = task.share := by
      rw [Task.share, Task.share, hdoing]
      rfl
    cases hpending : w.bell.pending with
    | true =>
      simp only [Bell.wait, hpending, if_true, Bool.false_eq_true, if_false]
      exact ⟨rfl, rfl, _, rfl, hshare, fun _ => Task.proper_of_not_isBusy rfl⟩
    | false =>
      simp only [Bell.wait, hpending, if_true, Bool.false_eq_true, if_false]
      exact ⟨rfl, rfl, _, rfl, rfl, id⟩
  · exact (puts_replace w t task).note

theorem Puts.orderly (h : w.Puts t task w') (hw : w.Orderly) (hproper : task.Proper) :
    w'.Orderly := by
  obtain ⟨task', htasks, -, hproper'⟩ := h.tasks_eq
  refine ⟨?_, fun p hp => ?_⟩
  · rw [htasks, map_fst_tasksWith]
    exact hw.tasks_nodup
  · rw [htasks, tasksWith] at hp
    obtain ⟨q, hq, rfl⟩ := List.mem_map.mp hp
    split
    · exact hproper' hproper
    · exact hw.proper q hq

theorem Puts.share_eq {old : Task} (h : w.Puts t task w') (hw : w.Orderly)
    (htask : w.task? t = some old) : w'.share = (w.without t).share + task.share := by
  obtain ⟨task', htasks, hshare, -⟩ := h.tasks_eq
  obtain ⟨before, rest, -, hwithout, hwith⟩ := hw.exists_tasks_eq htask
  have hheld : (w.without t).held = w.held := rfl
  simp only [share, hwithout, htasks, hwith, hheld, h.held_eq, ← hshare, List.map_append,
    List.map_cons, List.sum_append, List.sum_cons]
  abel

/-! ## Each action -/

theorem share_launch (w : World) (t : TaskId) (errand : Errand) :
    (w.launch t errand).share = w.share + errand.share := by
  have hready : Task.share ⟨errand, .ready⟩ = errand.share := Task.share_of_not_isBusy rfl
  simp only [share, launch, List.map_append, List.map_cons, List.map_nil, List.sum_append,
    List.sum_cons, List.sum_nil, add_zero, hready]
  exact (add_assoc _ _ _).symm

theorem lookup_of_isFresh (hfresh : w.isFresh t = true) : w.tasks.lookup t = none := by
  simp only [isFresh, Bool.and_eq_true] at hfresh
  simpa using hfresh.1

theorem ne_of_isFresh (hfresh : w.isFresh t = true) : ∀ p ∈ w.tasks, p.1 ≠ t := by
  intro p hp heq
  simpa [heq] using List.lookup_eq_none_iff.mp (lookup_of_isFresh hfresh) p hp

theorem orderly_launch (h : w.Orderly) (hfresh : w.isFresh t = true) (errand : Errand) :
    (w.launch t errand).Orderly where
  tasks_nodup := by
    have hnotMem : t ∉ w.tasks.map (·.1) := by
      intro hmem
      obtain ⟨p, hp, heq⟩ := List.mem_map.mp hmem
      exact ne_of_isFresh hfresh p hp heq
    rw [launch, List.map_append, List.map_cons, List.map_nil, ← List.concat_eq_append]
    exact h.tasks_nodup.concat hnotMem
  proper := fun p hp => by
    rcases List.mem_append.mp hp with hp | hp
    · exact h.proper p hp
    · obtain rfl := List.mem_singleton.mp hp
      exact Task.proper_of_not_isBusy rfl

theorem share_finish (w : World) (t : TaskId) (o : Outcome) :
    (w.finish t o).share = (w.without t).share + o.share := by
  cases o with
  | acquired m =>
    simp [finish, share, without, Outcome.share, Share.held_add, add_right_comm]
  | answered m r =>
    simp [finish, share, without, Outcome.share, Share.held_add, add_right_comm]
  | left m r =>
    simp [finish, share, without, Outcome.share, Share.held_add, add_right_comm]
  | _ => exact (add_zero _).symm

theorem tasks_finish (w : World) (t : TaskId) (o : Outcome) :
    (w.finish t o).tasks = (w.without t).tasks := by
  cases o <;> rfl

theorem ledger_finish (w : World) (t : TaskId) (o : Outcome) :
    (w.finish t o).ledger = w.ledger := by
  cases o <;> rfl

/-- A member in a caller's hands has a place among the others there, which they keep when it goes. -/
theorem exists_held_eq {id : MemberId} {m : Member} (hnodup : (memberIds w.held).Nodup)
    (hm : w.holding? id = some m) :
    ∃ before rest, w.held = before ++ m :: rest ∧ (w.notHolding id).held = before ++ rest := by
  obtain ⟨hid, before, rest, hsplit, hbefore⟩ := List.find?_eq_some_iff_append.mp hm
  obtain rfl : m.id = id := by simpa using hid
  have hbefore : before.filter (·.id != m.id) = before :=
    List.filter_eq_self.mpr fun n hn => by simpa using hbefore n hn
  have hrest : rest.filter (·.id != m.id) = rest := by
    refine List.filter_eq_self.mpr fun n hn => ?_
    have hnodup : (before ++ m :: rest).map (·.id) |>.Nodup := by
      rw [← hsplit]
      exact Multiset.coe_nodup.mp hnodup
    rw [List.map_append, List.map_cons] at hnodup
    have hnotMem := (List.nodup_cons.mp hnodup.of_append_right).1
    have hne : n.id ≠ m.id := fun heq => hnotMem (heq ▸ List.mem_map_of_mem hn)
    simpa using hne
  exact ⟨before, rest, hsplit, by simp [notHolding, hsplit, hbefore, hrest]⟩

theorem share_notHolding {id : MemberId} {m : Member} (hnodup : (memberIds w.held).Nodup)
    (hm : w.holding? id = some m) : w.share = (w.notHolding id).share + .held {id} := by
  obtain ⟨before, rest, hsplit, hheld⟩ := exists_held_eq hnodup hm
  obtain rfl : m.id = id := by simpa using List.find?_some hm
  have htasks : (w.notHolding m.id).tasks = w.tasks := rfl
  simp only [share, hheld, htasks, hsplit, memberIds_append, memberIds_cons, Share.held_add]
  abel

theorem share_invalidate (w : World) (id : MemberId) : share { w with
    held := w.held.map fun m => if m.id = id then { m with valid := false } else m } =
      w.share := by
  have hids : memberIds (w.held.map fun m => if m.id = id then { m with valid := false } else m) =
      memberIds w.held := by
    rw [memberIds, List.map_map, memberIds]
    congr 1
    refine List.map_congr_left fun m _ => ?_
    by_cases hm : m.id = id <;> simp [hm]
  rw [share, hids]
  rfl

/-- A change of a world that is made of sections. -/
structure Lawful (s : Settings) (w w' : World) : Prop where
  sections : Sections s (w.ledger, w.share) (w'.ledger, w'.share)
  orderly : w'.Orderly

theorem lawful_after {signal : Signal} {step : Step} (hw : w.Orderly)
    (htask : w.task? t = some task) (hstep : step.Lawful s w.ledger task.share) :
    w.Lawful s (w.after t signal step) := by
  obtain ⟨ledger, ring, progress⟩ := step
  have hshare := share_without hw htask
  have hsections := hstep.sections (w.without t).share
  rw [← hshare] at hsections
  cases progress with
  | running next =>
    let mid : World := { w with
      ledger := ledger
      lines := w.linesAfter signal
      bell := (w.bell.leave t).ring ring }
    have hmid : mid.Orderly := hw.of_sublist (List.Sublist.refl _)
    have hputs : mid.Puts t next (mid.put t next) := puts_put mid t next
    refine ⟨?_, hputs.orderly hmid (hstep.proper next rfl)⟩
    have hledger : (w.after t signal ⟨ledger, ring, .running next⟩).ledger = ledger :=
      hputs.ledger_eq
    have hshare' : (w.after t signal ⟨ledger, ring, .running next⟩).share =
        (w.without t).share + next.share := hputs.share_eq hmid htask
    rw [hledger, hshare']
    exact hsections
  | finished o =>
    refine ⟨?_, hw.of_sublist ?_⟩
    · simp only [after, ledger_finish, share_finish]
      exact hsections
    · simp only [after, tasks_finish]
      exact List.filter_sublist

theorem lawful_abandon (hw : w.Orderly) (htask : w.task? t = some task) (ring : Ring) :
    w.Lawful s { w.without t with
      ledger := (task.abandon w.ledger).1
      bell := (w.bell.desert t).ring ring
      held := w.held ++ task.lent?.toList } := by
  refine ⟨?_, hw.of_sublist List.filter_sublist⟩
  have hsections := Task.sections_abandon (s := s) (l := w.ledger) (hw.proper_of_task? htask)
    (w.without t).share
  rw [← share_without hw htask] at hsections
  simpa [share, Share.held_add, without, add_right_comm] using hsections

theorem lawful_letGo {id : MemberId} {m : Member} (hw : w.Orderly)
    (hnodup : (memberIds w.held).Nodup) (hm : w.holding? id = some m) (bell : Bell) :
    w.Lawful s { w.notHolding id with ledger := w.ledger.abandon id, bell := bell } := by
  refine ⟨?_, hw.of_sublist (List.Sublist.refl _)⟩
  rw [share_notHolding hnodup hm]
  exact .single (.abandon w.ledger _ id)

/-- A member that is handed to a call is in the hands of that call then. -/
theorem lawful_use {id : MemberId} {m : Member} (hw : w.Orderly)
    (hnodup : (memberIds w.held).Nodup) (hm : w.holding? id = some m) (hfresh : w.isFresh t = true)
    (use : Use) : w.Lawful s ((w.notHolding id).launch t (use.errand m)) := by
  have hw' : (w.notHolding id).Orderly := hw.of_sublist (List.Sublist.refl _)
  refine ⟨?_, orderly_launch hw' hfresh _⟩
  have hid : m.id = id := by simpa using List.find?_some hm
  have herrand : (use.errand m).share = .held {id} := by
    rw [← hid]
    cases use <;> rfl
  rw [share_notHolding hnodup hm, share_launch, herrand]
  exact .refl

/-! ## What an action can be -/

/-- What an action makes of a world in which it can happen. -/
inductive Acted (s : Settings) (w : World) : Action → World → Prop
  | begin (t : TaskId) (call : Call) (hfresh : w.isFresh t = true) :
      Acted s w (.begin t call) (w.launch t (w.errand s call))
  | use (t : TaskId) (id : MemberId) (use : Use) (m : Member) (hfresh : w.isFresh t = true)
      (hm : w.holding? id = some m) :
      Acted s w (.use t id use) ((w.notHolding id).launch t (use.errand m))
  | advance (t : TaskId) (signal : Signal) (task : Task) (step : Step)
      (htask : w.task? t = some task) (hadmits : w.admits t signal = true)
      (hstep : task.step s w.now w.isOpen w.ledger signal = some step) :
      Acted s w (.advance t signal) (w.after t signal step)
  | abandon (t : TaskId) (task : Task) (htask : w.task? t = some task) :
      Acted s w (.abandon t) { w.without t with
        ledger := (task.abandon w.ledger).1
        bell := (w.bell.desert t).ring (task.abandon w.ledger).2
        held := w.held ++ task.lent?.toList }
  | letGo (id : MemberId) (m : Member) (hm : w.holding? id = some m) :
      Acted s w (.letGo id)
        { w.notHolding id with ledger := w.ledger.abandon id, bell := w.bell.ring .once }
  | invalidate (id : MemberId) (m : Member) (hm : w.holding? id = some m) :
      Acted s w (.invalidate id) { w with
        held := w.held.map fun m => if m.id = id then { m with valid := false } else m }
  | die (line : Line) : Acted s w (.die line) { w with dead := w.dead.insert line }
  | wait (time : Time) (htime : w.now ≤ time) : Acted s w (.wait time) { w with now := time }

theorem acted {a : Action} (h : w.act s a = some w') : Acted s w a w' := by
  cases a with
  | begin t call =>
    obtain ⟨hfresh, rfl⟩ : w.isFresh t = true ∧ w.launch t (w.errand s call) = w' := by
      simpa [act] using h
    exact .begin t call hfresh
  | use t id use =>
    simp only [act] at h
    split at h
    · next m hfresh hm =>
      obtain rfl := Option.some.inj h
      exact .use t id use m hfresh hm
    · simp at h
  | advance t signal =>
    cases htask : w.task? t with
    | none => simp [act, htask] at h
    | some task =>
      simp only [act, htask] at h
      split at h
      · next hadmits =>
        obtain ⟨step, hstep, rfl⟩ := Option.map_eq_some_iff.mp h
        exact .advance t signal task step htask hadmits hstep
      · simp at h
  | abandon t =>
    cases htask : w.task? t with
    | none => simp [act, htask] at h
    | some task =>
      simp only [act, htask] at h
      obtain rfl := Option.some.inj h
      exact .abandon t task htask
  | letGo id =>
    cases hm : w.holding? id with
    | none => simp [act, hm] at h
    | some m =>
      simp only [act, hm] at h
      obtain rfl := Option.some.inj h
      exact .letGo id m hm
  | invalidate id =>
    cases hm : w.holding? id with
    | none => simp [act, hm] at h
    | some m =>
      simp only [act, hm] at h
      obtain rfl := Option.some.inj h
      exact .invalidate id m hm
  | die line =>
    obtain rfl := Option.some.inj h
    exact .die line
  | wait time =>
    simp only [act] at h
    split at h
    · next htime =>
      obtain rfl := Option.some.inj h
      exact .wait time htime
    · simp at h

theorem lawful_act {a : Action} (hw : w.Orderly) (hnodup : (memberIds w.held).Nodup)
    (h : w.act s a = some w') : w.Lawful s w' := by
  have hsame : ∀ {w' : World}, w'.tasks = w.tasks → w'.ledger = w.ledger → w'.share = w.share →
      w.Lawful s w' := by
    intro w' htasks hledger hshare
    refine ⟨?_, hw.of_sublist (by simp [htasks])⟩
    rw [hledger, hshare]
  cases acted h with
  | begin t call hfresh =>
    refine ⟨?_, orderly_launch hw hfresh _⟩
    have herrand : (w.errand s call).share = 0 := by cases call <;> rfl
    rw [share_launch, herrand, add_zero]
    exact .refl
  | use t id use m hfresh hm => exact lawful_use hw hnodup hm hfresh use
  | advance t signal task step htask hadmits hstep =>
    exact lawful_after hw htask (Task.lawful_step (hw.proper_of_task? htask) hstep)
  | abandon t task htask => exact lawful_abandon hw htask _
  | letGo id m hm => exact lawful_letGo hw hnodup hm _
  | invalidate id m hm => exact hsame rfl rfl (share_invalidate w id)
  | die line => exact hsame rfl rfl rfl
  | wait time htime => exact hsame rfl rfl rfl

/-! ## Runs -/

/-- What holds at the beginning of a run and every section keeps holds at its end, if it tells that
nothing is held twice. -/
theorem run_invariant {P : Ledger × Share → Prop} (hsection : ∀ {x y}, Section s x y → P x → P y)
    (hnodup : ∀ {x}, P x → x.2.hands.Nodup) (hw : w.Orderly) (hP : P (w.ledger, w.share))
    {actions : List Action} (hrun : run s w actions = some w') :
    w'.Orderly ∧ P (w'.ledger, w'.share) := by
  induction actions generalizing w with
  | nil =>
    obtain rfl := Option.some.inj hrun
    exact ⟨hw, hP⟩
  | cons a actions ih =>
    obtain ⟨next, hact, hrest⟩ := Option.bind_eq_some_iff.mp hrun
    have hheld : (memberIds w.held).Nodup :=
      Multiset.nodup_of_le (Multiset.le_add_right _ _) (hnodup hP)
    have hlawful := lawful_act hw hheld hact
    exact ih hlawful.orderly (hlawful.sections.invariant hsection hP) hrest

theorem orderly_start : start.Orderly := ⟨List.nodup_nil, by simp [start]⟩

/-- What a new pool satisfies and every section keeps holds whenever, if it tells that nothing is
held twice. -/
theorem Reachable.invariant {P : Ledger × Share → Prop} (hstart : P (.empty, 0))
    (hsection : ∀ {x y}, Section s x y → P x → P y) (hnodup : ∀ {x}, P x → x.2.hands.Nodup)
    (h : Reachable s w) : P (w.ledger, w.share) := by
  obtain ⟨actions, hrun⟩ := h
  exact (run_invariant hsection hnodup orderly_start hstart hrun).2

end World

end FaxClient.Pool
