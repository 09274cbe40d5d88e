import FaxClient.Proofs.Pool.Observation
import FaxClient.Proofs.Pool.Renewal

/-!
# The first in the queue that can be used

A call for a member that nobody interrupts hands out the first idle member that can be used.  Those
before it in the queue are struck out and destroyed one after the other, each before the next is
looked at; those behind it stay where they are.  The call neither waits for the bell nor creates a
member, so its deadline does not matter.

To destroy a member does not change what is true of the others: the sessions of the idle members are
all different, and so are their ids.
-/

namespace FaxClient.Pool

/-- Whether an action is a step of this task, or time passes. -/
def Action.isBy (t : TaskId) : Action → Bool
  | .advance t' _ => decide (t' = t)
  | .wait _ => true
  | .begin .. | .use .. | .abandon _ | .letGo _ | .invalidate _ | .die _ => false

def Action.isStep : Action → Bool
  | .advance .. => true
  | .wait _ | .begin .. | .use .. | .abandon _ | .letGo _ | .invalidate _ | .die _ => false

namespace Ledger

/-- The first member that can be used stands behind these, which cannot, and before the rest. -/
structure Queued (l : Ledger) (isOpen : Line → Bool) (stale : List Member) (m : Member)
    (rest : List Member) : Prop where
  idle_eq : l.idle = stale ++ m :: rest
  unusable : ∀ n ∈ stale, l.usable isOpen n = false
  usable : l.usable isOpen m = true

theorem exists_queued {l : Ledger} {isOpen : Line → Bool}
    (h : ∃ m ∈ l.idle, l.usable isOpen m = true) :
    ∃ stale m rest, l.Queued isOpen stale m rest := by
  have hsome : (l.idle.find? (l.usable isOpen)).isSome := List.find?_isSome.mpr h
  obtain ⟨m, hm⟩ := Option.isSome_iff_exists.mp hsome
  obtain ⟨husable, stale, rest, hsplit, hstale⟩ := List.find?_eq_some_iff_append.mp hm
  exact ⟨stale, m, rest, hsplit, fun n hn => by simpa using hstale n hn, husable⟩

theorem Queued.takeWhile_eq {l : Ledger} {isOpen : Line → Bool} {stale rest : List Member}
    {m : Member} (h : l.Queued isOpen stale m rest) :
    l.idle.takeWhile (fun n => !l.usable isOpen n) = stale := by
  have hstale : ∀ n ∈ stale, (!l.usable isOpen n) = true := fun n hn => by simp [h.unusable n hn]
  rw [h.idle_eq, List.takeWhile_append_of_pos hstale]
  simp [h.usable]

theorem Queued.dropWhile_eq {l : Ledger} {isOpen : Line → Bool} {stale rest : List Member}
    {m : Member} (h : l.Queued isOpen stale m rest) :
    l.idle.dropWhile (fun n => !l.usable isOpen n) = m :: rest := by
  have hstale : ∀ n ∈ stale, (!l.usable isOpen n) = true := fun n hn => by simp [h.unusable n hn]
  rw [h.idle_eq, List.dropWhile_append_of_pos hstale]
  simp [h.usable]

/-- A ledger once the first in the queue was struck out. -/
def strikeFirst (l : Ledger) (m : Member) : Ledger := forget { l with idle := l.idle.tail } m.id

/-- A ledger once these, the first in the queue, were struck out and destroyed. -/
def evicted (l : Ledger) (past : List Member) : Ledger :=
  past.foldl (fun l m => (l.strikeFirst m).revoke m.id) l

variable {l : Ledger} {past : List Member} {m : Member} {isOpen : Line → Bool}

theorem evicted_concat (l : Ledger) (past : List Member) (m : Member) :
    l.evicted (past ++ [m]) = ((l.evicted past).strikeFirst m).revoke m.id := by
  simp [evicted]

theorem evicted_eq (l : Ledger) (past : List Member) : l.evicted past =
    { l.strike (past.map (·.id)) with
      idle := l.idle.drop past.length
      revoked := (past.map (·.id)).foldl (fun ids id => ids.insert id) l.revoked } := by
  induction past generalizing l with
  | nil => rfl
  | cons m past ih =>
    have hcons : l.evicted (m :: past) = ((l.strikeFirst m).revoke m.id).evicted past := rfl
    rw [hcons, ih]
    simp [strikeFirst, revoke, forget, strike, List.diff_cons]

theorem mem_revoked_evicted (id : MemberId) :
    id ∈ (l.evicted past).revoked ↔ id ∈ l.revoked ∨ id ∈ past.map (·.id) := by
  rw [evicted_eq]
  exact mem_foldl_insert _ _

/-- Whether a member can be used after others were destroyed. -/
theorem usable_evicted (hid : m.id ∉ past.map (·.id)) {isOpen' : Line → Bool}
    (hopen : isOpen' m.line = isOpen m.line) :
    (l.evicted past).usable isOpen' m = l.usable isOpen m := by
  have hrevoked : (l.evicted past).revoked.contains m.id = l.revoked.contains m.id := by
    rw [Bool.eq_iff_iff, List.contains_iff_mem, List.contains_iff_mem, mem_revoked_evicted]
    simp [hid]
  simp only [usable, hrevoked, hopen]

theorem take_eq_ite {rest : List Member} (hopen : l.stopped = false) (hidle : l.idle = m :: rest) :
    l.take isOpen = if l.usable isOpen m then
      (.ready { m with working := true },
        { l with idle := rest, working := l.working.insert m.id })
      else (.stale m, l.strikeFirst m) := by
  rw [take, if_neg (by simp [hopen]), strikeFirst, hidle]
  rfl

end Ledger

namespace World

variable {s : Settings} {w w' next last : World} {t : TaskId} {signal : Signal}

/-! ## Going on alone -/

/-- From one world to the other nobody but this task goes on, by so many steps. -/
def Alone (s : Settings) (t : TaskId) (n : ℕ) (w w' : World) : Prop :=
  ∃ actions : List Action, (∀ a ∈ actions, a.isBy t = true) ∧
    actions.countP Action.isStep = n ∧ run s w actions = some w'

theorem Alone.refl (s : Settings) (t : TaskId) (w : World) : Alone s t 0 w w :=
  ⟨[], by simp, rfl, rfl⟩

variable {n k : ℕ}

theorem Alone.trans (h : Alone s t n w w') (h' : Alone s t k w' last) :
    Alone s t (n + k) w last := by
  obtain ⟨actions, hactions, rfl, hrun⟩ := h
  obtain ⟨actions', hactions', rfl, hrun'⟩ := h'
  refine ⟨actions ++ actions', ?_, List.countP_append, ?_⟩
  · intro a ha
    exact (List.mem_append.mp ha).elim (hactions a) (hactions' a)
  · rw [run_append, hrun, Option.bind_some, hrun']

theorem alone_advance (hact : w.act s (.advance t signal) = some w') : Alone s t 1 w w' :=
  ⟨[.advance t signal], by simp [Action.isBy], rfl, by rw [run, hact, Option.bind_some, run]⟩

/-- What the steps of the task and the clock keep. -/
theorem Alone.invariant {P : ℕ → World → Prop} (h : Alone s t n w w') (hw : P k w)
    (hadvance : ∀ {k w signal next}, P k w → w.act s (.advance t signal) = some next →
      P (k + 1) next)
    (hwait : ∀ {k} {w : World} {time}, P k w → P k { w with now := time }) : P (k + n) w' := by
  obtain ⟨actions, hactions, rfl, hrun⟩ := h
  induction actions generalizing k w with
  | nil =>
    obtain rfl := Option.some.inj hrun
    exact hw
  | cons a actions ih =>
    obtain ⟨next, hact, hrest⟩ := Option.bind_eq_some_iff.mp hrun
    have ha := hactions a List.mem_cons_self
    have hothers : ∀ b ∈ actions, b.isBy t = true :=
      fun b hb => hactions b (List.mem_cons_of_mem a hb)
    cases acted hact with
    | advance t' signal task step htask hadmits hstep =>
      obtain rfl : t' = t := by simpa [Action.isBy] using ha
      have hnext := ih (hadvance hw hact) hothers hrest
      rw [List.countP_cons_of_pos rfl, add_comm (List.countP _ _), ← add_assoc]
      exact hnext
    | wait time htime =>
      rw [List.countP_cons_of_neg Bool.false_ne_true]
      exact ih (hwait hw) hothers hrest
    | _ => simp [Action.isBy] at ha

/-- Those of these members whose sessions are open are asked to close, in this order. -/
def goodbyes (w : World) (members : List Member) : List Query :=
  (members.filter fun m => w.isOpen m.line).map fun m => .close m.line

theorem filterMap_goodbyes (w : World) (members : List Member) :
    (w.goodbyes members).filterMap Query.closed? =
      (members.filter fun m => w.isOpen m.line).map (·.line) := by
  rw [goodbyes, List.filterMap_map]
  exact List.filterMap_eq_map.symm ▸ rfl

/-- Since a task began, nothing has happened but that it destroyed these members, and that the
ledger is as it has left it. -/
structure Amid (w : World) (t : TaskId) (past : List Member) (task : Task) (l : Ledger)
    (w' : World) : Prop where
  tasks_eq : w'.tasks = w.tasks ++ [(t, task)]
  ledger_eq : w'.ledger = l
  finished_eq : w'.finished = w.finished
  held_eq : w'.held = w.held
  lines_eq : w'.lines = w.lines
  asked_eq : w'.asked = w.asked ++ w.goodbyes past
  isOpen_eq : ∀ line, w'.isOpen line = (w.isOpen line && !(Pool.lines past).contains line)

variable {past : List Member} {task : Task} {l : Ledger}

theorem Amid.task?_eq (h : w.Amid t past task l w') (hfresh : w.isFresh t = true) :
    w'.task? t = some task := by
  simp [task?, h.tasks_eq, List.lookup_append, lookup_of_isFresh hfresh]

/-- The task goes on, and these members are destroyed from now on. -/
theorem Amid.goesOn (h : w.Amid t past task l w') (hfresh : w.isFresh t = true) {l' : Ledger}
    {errand : Errand} {doing : Doing} (hdoing : ∀ limit, doing ≠ .parked limit)
    (hsignal : signal.line? = none) {members : List Member}
    (hquery : (Task.query? ⟨errand, doing⟩).toList = w.goodbyes members) :
    w.Amid t (past ++ members) ⟨errand, doing⟩ l'
      (w'.after t signal (Task.continuing l' errand doing .none)) where
  tasks_eq := by
    have hsame : ∀ p ∈ w.tasks,
        (if p.1 = t then (t, (⟨errand, doing⟩ : Task)) else p) = p :=
      fun p hp => if_neg (ne_of_isFresh hfresh p hp)
    rw [tasks_after w' t signal rfl hdoing, tasksWith, h.tasks_eq, List.map_append,
      List.map_congr_left hsame]
    simp
  ledger_eq := ledger_after w' t signal _
  finished_eq := by simp [finished_after, Progress.outcome?, Task.continuing, h.finished_eq]
  held_eq := by
    rw [held_after w' t signal (by simp [Task.continuing]), h.held_eq]
  lines_eq := by simp [lines_after, hsignal, h.lines_eq]
  asked_eq := by
    have hqueries : (Task.continuing l' errand doing .none).progress.queries =
        w.goodbyes members := hquery
    calc (w'.after t signal (Task.continuing l' errand doing .none)).asked
      _ = w.asked ++ w.goodbyes past ++ w.goodbyes members := by
        rw [asked_after, hqueries, h.asked_eq]
      _ = w.asked ++ w.goodbyes (past ++ members) := by
        rw [goodbyes, goodbyes, goodbyes, List.filter_append, List.map_append, List.append_assoc]
  isOpen_eq := fun line => by
    have hasked : (Task.continuing l' errand doing .none).progress.asked =
        (members.filter fun m => w.isOpen m.line).map (·.line) := by
      rw [Progress.asked_eq_filterMap, ← filterMap_goodbyes, ← hquery]
      rfl
    have hmem : w.isOpen line = true →
        (line ∈ (Task.continuing l' errand doing .none).progress.asked ↔
          line ∈ Pool.lines members) := by
      intro hopen
      simp only [hasked, Pool.lines, List.mem_map, List.mem_filter]
      constructor
      · rintro ⟨n, ⟨hn, -⟩, rfl⟩
        exact ⟨n, hn, rfl⟩
      · rintro ⟨n, hn, rfl⟩
        exact ⟨n, ⟨hn, hopen⟩, rfl⟩
    rw [isOpen_after, h.isOpen_eq]
    cases hopen : w.isOpen line with
    | false => rfl
    | true =>
      have hmem := hmem hopen
      by_cases hline : line ∈ Pool.lines members <;> simp_all [Pool.lines]

/-! ## A call -/

/-- A call for a member begins at a pool that is not stopped and has a member that can be used. -/
structure Serves (s : Settings) (w : World) (t : TaskId) (stale : List Member) (m : Member)
    (rest : List Member) : Prop where
  reachable : Reachable s w
  not_stopped : w.ledger.stopped = false
  fresh : w.isFresh t = true
  queued : w.ledger.Queued w.isOpen stale m rest

/-- Such a call is under way, and takes at most so many steps more: it is about to look at the
queue, or destroys a member.  It neither waits nor creates a member. -/
inductive Evicting (s : Settings) (w : World) (t : TaskId) (stale : List Member) :
    ℕ → World → Prop
  | looking {past left : List Member} {w' : World} (hstale : stale = past ++ left)
      (h : w.Amid t past ⟨w.errand s .acquire, .ready⟩ (w.ledger.evicted past) w') :
      Evicting s w t stale (3 * left.length + 1) w'
  | discarding {past left : List Member} {m : Member} {w' : World}
      (hstale : stale = past ++ m :: left)
      (h : w.Amid t past ⟨w.errand s .acquire, .discarding m⟩
        ((w.ledger.evicted past).strikeFirst m) w') :
      Evicting s w t stale (3 * left.length + 3) w'
  | closing {past left : List Member} {m : Member} {limit : Time} {w' : World}
      (hstale : stale = past ++ m :: left)
      (h : w.Amid t (past ++ [m]) ⟨w.errand s .acquire, .closing m limit⟩
        (w.ledger.evicted (past ++ [m])) w') :
      Evicting s w t stale (3 * left.length + 2) w'

/-- Such a call is over: the first member that can be used is handed out, and those before it are
gone. -/
structure Served (w : World) (t : TaskId) (stale : List Member) (m : Member) (rest : List Member)
    (w' : World) : Prop where
  finished_eq : w'.finished = w.finished ++ [(t, .acquired { m with working := true })]
  held_eq : w'.held = w.held ++ [{ m with working := true }]
  tasks_eq : w'.tasks = w.tasks
  /-- Nothing else is changed in the ledger. -/
  ledger_eq : w'.ledger = { w.ledger with
    idle := rest
    known := w.ledger.known.filter (· ∉ stale.map (·.id))
    working := w.ledger.working.insert m.id
    revoked := (stale.map (·.id)).foldl (fun ids id => ids.insert id) w.ledger.revoked }
  /-- No session is connected, and those that are closed are closed in the order of the queue. -/
  lines_eq : w'.lines = w.lines
  asked_eq : w'.asked = w.asked ++ w.goodbyes stale
  mem_known : m.id ∈ w'.ledger.known
  mem_working : m.id ∈ w'.ledger.working
  stale_gone : ∀ n ∈ stale, n.id ∉ w'.ledger.idle.map (·.id) ∧ n.id ∉ w'.ledger.known ∧
    n.id ∉ w'.ledger.working ∧ n.id ∉ w'.ledger.flagged

variable {stale rest : List Member} {m n : Member}

/-- To destroy those before it makes no difference to a member. -/
theorem Amid.isOpen_line (h : w.Amid t past task l w') (hw : Reachable s w) {more : List Member}
    (hidle : w.ledger.idle = past ++ n :: more) : w'.isOpen n.line = w.isOpen n.line := by
  have hnodup : (Pool.lines (past ++ n :: more)).Nodup := hidle ▸ hw.lines_nodup.of_append_left
  have hline : n.line ∉ Pool.lines past := by
    intro hmem
    rw [Pool.lines, List.map_append, List.map_cons] at hnodup
    exact (List.nodup_append.mp hnodup).2.2 _ hmem _ List.mem_cons_self rfl
  simp [h.isOpen_eq, hline]

theorem Amid.usable_eq (h : w.Amid t past task (w.ledger.evicted past) w') (hw : Reachable s w)
    {more : List Member} (hidle : w.ledger.idle = past ++ n :: more) :
    w'.ledger.usable w'.isOpen n = w.ledger.usable w.isOpen n := by
  have hnodup : ((past ++ n :: more).map (·.id)).Nodup := hidle ▸ hw.balanced.idle_nodup
  have hid : n.id ∉ past.map (·.id) := by
    intro hmem
    rw [List.map_append, List.map_cons] at hnodup
    exact (List.nodup_append.mp hnodup).2.2 _ hmem _ List.mem_cons_self rfl
  rw [h.ledger_eq]
  exact Ledger.usable_evicted hid (h.isOpen_line hw hidle)

/-- What the call finds as it looks at the queue. -/
theorem Amid.take_eq (h : w.Amid t past task (w.ledger.evicted past) w')
    (hw : Serves s w t stale m rest) {more : List Member}
    (hidle : w.ledger.idle = past ++ n :: more) :
    w'.ledger.take w'.isOpen = if w.ledger.usable w.isOpen n then
      (.ready { n with working := true }, { w.ledger.evicted past with
        idle := more
        working := (w.ledger.evicted past).working.insert n.id })
      else (.stale n, (w.ledger.evicted past).strikeFirst n) := by
  have hstopped : w'.ledger.stopped = false := by
    rw [h.ledger_eq, Ledger.evicted_eq]
    exact hw.not_stopped
  have hidle' : w'.ledger.idle = n :: more := by
    rw [h.ledger_eq, Ledger.evicted_eq]
    simp [hidle]
  rw [Ledger.take_eq_ite hstopped hidle', h.usable_eq hw.reachable hidle, h.ledger_eq]

theorem diff_eq_self {ids gone : List MemberId} (h : ∀ id ∈ gone, id ∉ ids) :
    ids.diff gone = ids := by
  induction gone with
  | nil => exact List.diff_nil ids
  | cons id gone ih =>
    rw [List.diff_cons, List.erase_of_not_mem (h id List.mem_cons_self)]
    exact ih fun id' hid => h id' (List.mem_cons_of_mem id hid)

/-- Idle members are not in callers' hands, so to destroy them leaves those alone. -/
theorem Reachable.evicted_eq (h : Reachable s w) {more : List Member}
    (hidle : w.ledger.idle = past ++ more) : w.ledger.evicted past = { w.ledger with
      idle := more
      known := w.ledger.known.filter (· ∉ past.map (·.id))
      revoked := (past.map (·.id)).foldl (fun ids id => ids.insert id) w.ledger.revoked } := by
  have hbalanced := h.balanced
  have hpast : ∀ id ∈ past.map (·.id), id ∉ w.ledger.working := by
    intro id hid
    refine hbalanced.notMem_working ?_
    rw [hidle, List.map_append]
    exact List.mem_append_left _ hid
  have hflagged : ∀ id ∈ past.map (·.id), id ∉ w.ledger.flagged :=
    fun id hid hmem => hpast id hid (hbalanced.listed.flagged_subset id hmem)
  have hknown : w.ledger.known.diff (past.map (·.id)) =
      w.ledger.known.filter (· ∉ past.map (·.id)) :=
    hbalanced.listed.known_nodup.sdiff_eq_filter
  have hleft : w.ledger.idle.drop past.length = more := by rw [hidle, List.drop_left]
  rw [Ledger.evicted_eq, Ledger.strike, diff_eq_self hpast, diff_eq_self hflagged, hknown, hleft]

theorem Serves.served (hw : Serves s w t stale m rest)
    (h : w.Amid t stale ⟨w.errand s .acquire, .ready⟩ (w.ledger.evicted stale) w') :
    w.Served t stale m rest (w'.after t .go (Task.finishing { w.ledger.evicted stale with
      idle := rest
      working := (w.ledger.evicted stale).working.insert m.id }
      (.acquired { m with working := true }) .none)) := by
  have hbalanced := hw.reachable.balanced
  have hidle : w.ledger.idle.map (·.id) = stale.map (·.id) ++ m.id :: rest.map (·.id) := by
    rw [hw.queued.idle_eq, List.map_append, List.map_cons]
  have hnodup := hbalanced.idle_nodup
  rw [hidle] at hnodup
  have hapart : ∀ id ∈ stale.map (·.id), id ≠ m.id ∧ id ∉ rest.map (·.id) := by
    intro id hid
    have hdisjoint := (List.nodup_append.mp hnodup).2.2 id hid
    exact ⟨hdisjoint _ List.mem_cons_self,
      fun hmem => hdisjoint _ (List.mem_cons_of_mem _ hmem) rfl⟩
  have hworking : ∀ id ∈ stale.map (·.id), id ∉ w.ledger.working := fun id hid =>
    hbalanced.notMem_working (hidle ▸ List.mem_append_left _ hid)
  have hmem : m.id ∈ w.ledger.known.filter (· ∉ stale.map (·.id)) := by
    refine List.mem_filter.mpr ⟨hbalanced.mem_known ?_, ?_⟩
    · rw [hidle]
      exact List.mem_append_right _ List.mem_cons_self
    · exact decide_eq_true fun hid => (hapart _ hid).1 rfl
  have hsame : ∀ p ∈ w.tasks, (p.1 != t) = true := by
    simpa using ne_of_isFresh hw.fresh
  have hledger := hw.reachable.evicted_eq hw.queued.idle_eq
  refine ⟨?_, ?_, ?_, ?_, ?_, ?_, ?_, ?_, ?_⟩
  · rw [finished_after, h.finished_eq]
    rfl
  · exact congrArg (· ++ _) h.held_eq
  · have htasks : (w'.tasks.filter (·.1 != t)) = w.tasks := by
      rw [h.tasks_eq, List.filter_append, List.filter_eq_self.mpr hsame]
      simp
    exact htasks
  · rw [ledger_after, hledger]
    rfl
  · rw [lines_after, h.lines_eq]
    rfl
  · rw [asked_after, h.asked_eq]
    exact List.append_nil _
  · rw [ledger_after, hledger]
    exact hmem
  · rw [ledger_after]
    exact List.mem_insert_self
  · intro n hn
    have hid : n.id ∈ stale.map (·.id) := List.mem_map_of_mem hn
    rw [ledger_after, hledger]
    refine ⟨(hapart _ hid).2, ?_, ?_, ?_⟩
    · intro hknown
      exact absurd hid (of_decide_eq_true (List.mem_filter.mp hknown).2)
    · intro hmem
      rcases List.mem_insert_iff.mp hmem with heq | hmem
      · exact (hapart _ hid).1 heq
      · exact hworking _ hid hmem
    · exact fun hmem => hworking _ hid (hbalanced.listed.flagged_subset _ hmem)

/-! ## The steps of the call -/

/-- It looks at the queue. -/
theorem Serves.look (hw : Serves s w t stale m rest) {left : List Member}
    (hstale : stale = past ++ left)
    (h : w.Amid t past ⟨w.errand s .acquire, .ready⟩ (w.ledger.evicted past) w') {st : Step}
    (hstep : Task.step s w'.now w'.isOpen w'.ledger ⟨w.errand s .acquire, .ready⟩ signal =
      some st) :
    (left = [] ∧ w.Served t stale m rest (w'.after t signal st)) ∨
      ∃ n more, left = n :: more ∧ w.Amid t past ⟨w.errand s .acquire, .discarding n⟩
        ((w.ledger.evicted past).strikeFirst n) (w'.after t signal st) := by
  have hidle : w.ledger.idle = past ++ (left ++ m :: rest) := by
    rw [hw.queued.idle_eq, hstale, List.append_assoc]
  obtain rfl : signal = .go := by
    cases signal with
    | go => rfl
    | _ => simp [Task.step] at hstep
  obtain rfl := Option.some.inj hstep
  cases left with
  | nil =>
    obtain rfl : stale = past := by simpa using hstale
    have htake := h.take_eq hw hidle
    rw [if_pos hw.queued.usable] at htake
    refine Or.inl ⟨rfl, ?_⟩
    simp only [Task.proceed, errand, htake]
    exact hw.served h
  | cons n more =>
    have htake := h.take_eq hw hidle
    have hn : w.ledger.usable w.isOpen n = false := hw.queued.unusable n (by simp [hstale])
    rw [hn, if_neg Bool.false_ne_true] at htake
    have hproceed : Task.proceed s w'.now w'.isOpen w'.ledger (w.errand s .acquire) =
        Task.continuing ((w.ledger.evicted past).strikeFirst n) (w.errand s .acquire)
          (.discarding n) .none := by
      simp only [Task.proceed, errand, htake]
    have hnext : w.Amid t (past ++ []) ⟨w.errand s .acquire, .discarding n⟩
        ((w.ledger.evicted past).strikeFirst n)
        (w'.after t .go (Task.proceed s w'.now w'.isOpen w'.ledger (w.errand s .acquire))) :=
      hproceed ▸ h.goesOn hw.fresh (by simp) rfl rfl
    rw [List.append_nil] at hnext
    exact Or.inr ⟨n, more, rfl, hnext⟩

/-- It destroys a member: the session is asked to close, unless it is not open any more. -/
theorem Serves.destroy (hw : Serves s w t stale m rest) {left : List Member}
    (hstale : stale = past ++ n :: left)
    (h : w.Amid t past ⟨w.errand s .acquire, .discarding n⟩
      ((w.ledger.evicted past).strikeFirst n) w')
    {st : Step}
    (hstep : Task.step s w'.now w'.isOpen w'.ledger ⟨w.errand s .acquire, .discarding n⟩ signal =
      some st) :
    (∃ limit, w.Amid t (past ++ [n]) ⟨w.errand s .acquire, .closing n limit⟩
        (w.ledger.evicted (past ++ [n])) (w'.after t signal st)) ∨
      w.Amid t (past ++ [n]) ⟨w.errand s .acquire, .ready⟩ (w.ledger.evicted (past ++ [n]))
        (w'.after t signal st) := by
  have hidle : w.ledger.idle = past ++ n :: (left ++ m :: rest) := by
    rw [hw.queued.idle_eq, hstale, List.append_assoc, List.cons_append]
  have hopen := h.isOpen_line hw.reachable hidle
  obtain rfl : signal = .go := by
    cases signal with
    | go => rfl
    | _ => simp [Task.step] at hstep
  simp only [Task.step, hopen, h.ledger_eq, ← Ledger.evicted_concat] at hstep
  split at hstep
  · next hline =>
    obtain rfl := Option.some.inj hstep
    have hquery : [Query.close n.line] = w.goodbyes [n] := by simp [goodbyes, hline]
    exact Or.inl ⟨_, h.goesOn hw.fresh (by simp) rfl hquery⟩
  · next hline =>
    obtain rfl := Option.some.inj hstep
    have hquery : [] = w.goodbyes [n] := by simp [goodbyes, hline]
    exact Or.inr (h.goesOn hw.fresh (by simp) rfl hquery)

/-- The session is closed, well or not, or the time for it is up. -/
theorem Serves.close (hw : Serves s w t stale m rest) {limit : Time}
    (h : w.Amid t past ⟨w.errand s .acquire, .closing n limit⟩ (w.ledger.evicted past) w')
    {st : Step}
    (hstep : Task.step s w'.now w'.isOpen w'.ledger ⟨w.errand s .acquire, .closing n limit⟩
      signal = some st) :
    w.Amid t past ⟨w.errand s .acquire, .ready⟩ (w.ledger.evicted past) (w'.after t signal st) := by
  have hsignal : signal.line? = none := by
    cases signal with
    | connected line => simp [Task.step] at hstep
    | _ => rfl
  cases Task.stepped hstep with
  | closed errand n limit success =>
    have hnext : w.Amid t (past ++ []) ⟨w.errand s .acquire, .ready⟩ w'.ledger
        (w'.after t signal (Task.discarded s w'.now w'.ledger (w.errand s .acquire) success)) :=
      h.goesOn hw.fresh (by simp) hsignal rfl
    rw [List.append_nil] at hnext
    rw [← h.ledger_eq]
    exact hnext

theorem Evicting.advance (hw : Serves s w t stale m rest) (h : Evicting s w t stale k w')
    (hact : w'.act s (.advance t signal) = some next) :
    (∃ j < k, Evicting s w t stale j next) ∨ w.Served t stale m rest next ∧ 0 < k := by
  obtain ⟨task, st, htask, hstep, rfl⟩ := act_advance hact
  cases h with
  | @looking past left w' hstale h =>
    obtain rfl := Option.some.inj ((h.task?_eq hw.fresh).symm.trans htask)
    rcases hw.look hstale h hstep with ⟨-, hserved⟩ | ⟨n, more, rfl, hnext⟩
    · exact Or.inr ⟨hserved, Nat.succ_pos _⟩
    · exact Or.inl ⟨_, by simp; omega, .discarding hstale hnext⟩
  | @discarding past left n w' hstale h =>
    have hstale' : stale = past ++ [n] ++ left := by simpa using hstale
    obtain rfl := Option.some.inj ((h.task?_eq hw.fresh).symm.trans htask)
    rcases hw.destroy hstale h hstep with ⟨limit, hnext⟩ | hnext
    · exact Or.inl ⟨_, by omega, .closing hstale hnext⟩
    · exact Or.inl ⟨_, by omega, .looking hstale' hnext⟩
  | @closing past left n limit w' hstale h =>
    have hstale' : stale = past ++ [n] ++ left := by simpa using hstale
    obtain rfl := Option.some.inj ((h.task?_eq hw.fresh).symm.trans htask)
    exact Or.inl ⟨_, by omega, .looking hstale' (hw.close h hstep)⟩

/-! ## The call comes to its end -/

/-- Whatever the call is doing, it can take a step. -/
theorem Evicting.exists_advance (hfresh : w.isFresh t = true) (h : Evicting s w t stale k w') :
    ∃ signal next, w'.act s (.advance t signal) = some next := by
  cases h with
  | looking hstale h => exact ⟨.go, _, act_advance_eq (h.task?_eq hfresh) rfl rfl⟩
  | @discarding past left n w' hstale h =>
    obtain ⟨st, hstep⟩ : ∃ st, Task.step s w'.now w'.isOpen w'.ledger
        ⟨w.errand s .acquire, .discarding n⟩ .go = some st := by
      simp only [Task.step]
      split <;> exact ⟨_, rfl⟩
    exact ⟨.go, _, act_advance_eq (h.task?_eq hfresh) rfl hstep⟩
  | closing hstale h =>
    exact ⟨.closed (.ok ()), _, act_advance_eq (h.task?_eq hfresh) rfl rfl⟩

theorem Evicting.exists_served (hw : Serves s w t stale m rest) (h : Evicting s w t stale k w') :
    ∃ j last, Alone s t j w' last ∧ w.Served t stale m rest last := by
  induction k using Nat.strong_induction_on generalizing w' with
  | _ k ih =>
    obtain ⟨signal, next, hact⟩ := h.exists_advance hw.fresh
    have hone := alone_advance hact
    rcases h.advance hw hact with ⟨j, hj, hnext⟩ | ⟨hserved, -⟩
    · obtain ⟨i, last, hrest, hserved⟩ := ih j hj hnext
      exact ⟨_, last, hone.trans hrest, hserved⟩
    · exact ⟨_, next, hone, hserved⟩

theorem Served.not_advance (h : w.Served t stale m rest w') (hfresh : w.isFresh t = true) :
    w'.act s (.advance t signal) = none := by
  simp [act, task?, h.tasks_eq, lookup_of_isFresh hfresh]

theorem Served.wait (h : w.Served t stale m rest w') (time : Time) :
    w.Served t stale m rest { w' with now := time } := by
  obtain ⟨hfinished, hheld, htasks, hledger, hlines, hasked, hknown, hworking, hgone⟩ := h
  exact ⟨hfinished, hheld, htasks, hledger, hlines, hasked, hknown, hworking, hgone⟩

theorem Amid.wait (h : w.Amid t past task l w') (time : Time) :
    w.Amid t past task l { w' with now := time } := by
  obtain ⟨htasks, hledger, hfinished, hheld, hlines, hasked, hopen⟩ := h
  exact ⟨htasks, hledger, hfinished, hheld, hlines, hasked, hopen⟩

theorem Evicting.wait (h : Evicting s w t stale k w') (time : Time) :
    Evicting s w t stale k { w' with now := time } := by
  cases h with
  | looking hstale h => exact .looking hstale (h.wait time)
  | discarding hstale h => exact .discarding hstale (h.wait time)
  | closing hstale h => exact .closing hstale (h.wait time)

/-- So many steps of the call have been taken. -/
def Serving (s : Settings) (w : World) (t : TaskId) (stale : List Member) (m : Member)
    (rest : List Member) (n : ℕ) (w' : World) : Prop :=
  (w.Served t stale m rest w' ∧ n ≤ 3 * stale.length + 1) ∨
    ∃ k, Evicting s w t stale k w' ∧ n + k ≤ 3 * stale.length + 1

theorem Serving.alone (hw : Serves s w t stale m rest) {called : World} {steps : ℕ}
    (hcalled : Serving s w t stale m rest 0 called) (h : Alone s t steps called w') :
    Serving s w t stale m rest steps w' := by
  rw [← Nat.zero_add steps]
  refine h.invariant (P := Serving s w t stale m rest) hcalled ?_ ?_
  · rintro n w' signal next (⟨hserved, -⟩ | ⟨k, hevicting, hle⟩) hact
    · simp [hserved.not_advance hw.fresh] at hact
    · rcases hevicting.advance hw hact with ⟨j, hj, hnext⟩ | ⟨hserved, hpos⟩
      · exact Or.inr ⟨j, hnext, by omega⟩
      · exact Or.inl ⟨hserved, by omega⟩
  · rintro n w' time (⟨hserved, hle⟩ | ⟨k, hevicting, hle⟩)
    · exact Or.inl ⟨hserved.wait time, hle⟩
    · exact Or.inr ⟨k, hevicting.wait time, hle⟩

/-- A call for a member at a pool that is not stopped and has an idle member that can be used: if
nobody else goes on, it hands out the first such member, whatever its deadline.  Until it has, it
destroys those before that member in the order of the queue, does nothing else, and can take a step;
it takes at most three for each of them, and one more. -/
theorem Reachable.hands_out_first (h : Reachable s w) (hopen : w.ledger.stopped = false)
    (husable : ∃ m ∈ w.ledger.idle, w.ledger.usable w.isOpen m = true)
    (hfresh : w.isFresh t = true) :
    ∃ stale m rest called, w.ledger.Queued w.isOpen stale m rest ∧
      w.act s (.begin t .acquire) = some called ∧
        (∃ n last, Alone s t n called last ∧ w.Served t stale m rest last) ∧
          ∀ n w', Alone s t n called w' → n ≤ 3 * stale.length + 1 ∧
            (w.Served t stale m rest w' ∨ (∃ k, Evicting s w t stale k w') ∧
              ∃ signal next, w'.act s (.advance t signal) = some next) := by
  obtain ⟨stale, m, rest, hqueued⟩ := Ledger.exists_queued husable
  have hw : Serves s w t stale m rest := ⟨h, hopen, hfresh, hqueued⟩
  have hact : w.act s (.begin t .acquire) = some (w.launch t (w.errand s .acquire)) := by
    simp [act, hfresh]
  have hamid : w.Amid t [] ⟨w.errand s .acquire, .ready⟩ (w.ledger.evicted [])
      (w.launch t (w.errand s .acquire)) :=
    ⟨rfl, rfl, rfl, rfl, rfl, (List.append_nil _).symm,
      fun line => by simp [isOpen, launch, Pool.lines]⟩
  have hbegun : Evicting s w t stale (3 * stale.length + 1) (w.launch t (w.errand s .acquire)) :=
    .looking (List.nil_append stale).symm hamid
  refine ⟨stale, m, rest, _, hqueued, hact, hbegun.exists_served hw, fun n w' halone => ?_⟩
  have hcalled : Serving s w t stale m rest 0 (w.launch t (w.errand s .acquire)) :=
    Or.inr ⟨_, hbegun, by omega⟩
  rcases hcalled.alone hw halone with ⟨hserved, hle⟩ | ⟨k, hevicting, hle⟩
  · exact ⟨hle, Or.inl hserved⟩
  · exact ⟨by omega, Or.inr ⟨⟨k, hevicting⟩, hevicting.exists_advance hfresh⟩⟩

/-- Three idle members, callers that cannot wait. -/
def threeAtOnce : Settings := { Settings.default with minSize := 3, blockingTimeout := 0 }

/-- The sessions of the first and of the last in the queue have died. -/
def thinned : World where
  now := 0
  ledger := ⟨[⟨⟨1⟩, ⟨1⟩, false, true⟩, ⟨⟨2⟩, ⟨2⟩, false, true⟩, ⟨⟨3⟩, ⟨3⟩, false, true⟩],
    [⟨3⟩, ⟨2⟩, ⟨1⟩], [], [], 0, false, 3, [], ⟨4⟩⟩
  bell := ⟨true, [], [], []⟩
  tasks := []
  finished := [(⟨1⟩, .tallied ⟨3, 0⟩)]
  held := []
  lines := [⟨3⟩, ⟨2⟩, ⟨1⟩]
  dead := [⟨3⟩, ⟨1⟩]
  asked := [.connect, .connect, .connect]

theorem reachable_thinned : Reachable threeAtOnce thinned := by
  refine ⟨[.begin ⟨1⟩ .start, .advance ⟨1⟩ .go, .advance ⟨1⟩ .go, .advance ⟨1⟩ (.connected ⟨1⟩),
    .advance ⟨1⟩ .go, .advance ⟨1⟩ .go, .advance ⟨1⟩ (.connected ⟨2⟩), .advance ⟨1⟩ .go,
    .advance ⟨1⟩ .go, .advance ⟨1⟩ (.connected ⟨3⟩), .advance ⟨1⟩ .go, .advance ⟨1⟩ .go,
    .die ⟨1⟩, .die ⟨3⟩], ?_⟩
  rfl

theorem hands_out_first_thinned : Reachable threeAtOnce thinned ∧
    thinned.ledger.stopped = false ∧
      (∃ m ∈ thinned.ledger.idle, thinned.ledger.usable thinned.isOpen m = true) ∧
        thinned.isFresh ⟨2⟩ = true ∧ ∃ called n last,
          thinned.act threeAtOnce (.begin ⟨2⟩ .acquire) = some called ∧
            Alone threeAtOnce ⟨2⟩ n called last ∧
              last.finished = thinned.finished ++ [(⟨2⟩, .acquired ⟨⟨2⟩, ⟨2⟩, true, true⟩)] ∧
                last.ledger.idle = [⟨⟨3⟩, ⟨3⟩, false, true⟩] ∧
                  last.ledger.known = [⟨3⟩, ⟨2⟩] ∧ last.ledger.working = [⟨2⟩] := by
  have husable : ∃ m ∈ thinned.ledger.idle, thinned.ledger.usable thinned.isOpen m = true :=
    ⟨⟨⟨2⟩, ⟨2⟩, false, true⟩, by decide, by decide⟩
  obtain ⟨stale, m, rest, called, hqueued, hact, ⟨n, last, halone, hserved⟩, -⟩ :=
    reachable_thinned.hands_out_first rfl husable (t := ⟨2⟩) rfl
  obtain rfl : [⟨⟨1⟩, ⟨1⟩, false, true⟩] = stale := hqueued.takeWhile_eq
  obtain ⟨rfl, rfl⟩ := List.cons.inj (hqueued.dropWhile_eq : _ = m :: rest)
  refine ⟨reachable_thinned, rfl, husable, rfl, called, n, last, hact, halone, ?_, ?_, ?_, ?_⟩
  · exact hserved.finished_eq
  · rw [hserved.ledger_eq]
  · rw [hserved.ledger_eq]
    rfl
  · rw [hserved.ledger_eq]
    rfl

end World

end FaxClient.Pool
