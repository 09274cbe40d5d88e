import FaxClient.Event.Script
import FaxClient.Proofs.Event.Trace

/-!
# Dispatch to listeners that act

A script is run once more with a trace beside it.  The run takes nothing from the trace, so its
reports are those of the script.

Every list of steps is set off at most once, so the lists that are left bound how deep deliveries
can still be nested.  A run therefore never gets as deep as it is allowed to, and one that is
allowed more leaves the same trace.
-/

namespace FaxClient.Event.Script

/-! ## The run with its trace -/

structure Stage where
  state : State
  /-- How many emissions have begun. -/
  emissions : ℕ
  trace : List Mark

namespace Stage

def start : Stage := ⟨.empty, 0, []⟩

def onState (g : Stage) (s : State) : Stage := { g with state := s }

def mark (g : Stage) (m : Mark) : Stage := { g with trace := g.trace ++ [m] }

def begin (g : Stage) (e : Event) : Stage :=
  { g with emissions := g.emissions + 1 }.mark (.begun g.emissions e)

def deliver (g : Stage) (n : ℕ) (h : Subscription) (e : Event) : String × List Step × Stage :=
  let (name, steps, s) := g.state.deliver h e
  (name, steps, (g.onState s).mark (.delivered n h name e))

def did (g : Stage) (name : String) (step : Step) (result : Result) : Stage :=
  g.onState { g.state with log := .did name step result :: g.state.log }

end Stage

/-- Whose registration ends when this name is unsubscribed. -/
def State.leaver? (s : State) (name : String) : Option Subscription :=
  (s.names.lookup name).filter fun h => (s.listeners.unsubscribe h).1

/-- One step, where `deliver` says what the delivery of an emission to one listener does. -/
def Step.perform (deliver : ℕ → Event → Stage → Subscription → Stage) (g : Stage) :
    Step → Result × Stage
  | .subscribe name r plan =>
    let (h, s) := g.state.subscribe name r plan
    (.subscribed h, (g.onState s).mark (.joined h r))
  | .unsubscribe name =>
    let (result, s) := g.state.unsubscribe name
    match g.state.leaver? name with
    | some h => (result, (g.onState s).mark (.left h))
    | none => (result, g.onState s)
  | .emit e =>
    let reached := (g.state.listeners.recipients e).foldl (deliver g.emissions e) (g.begin e)
    (.emitted, reached.mark (.ended g.emissions))
  | .count => (.counted g.state.listeners.count, g)

/-- The steps that a listener of this name does while an event is delivered to it. -/
def Stage.doAll (deliver : ℕ → Event → Stage → Subscription → Stage) (name : String) :
    Stage → List Step → Stage
  | g, [] => g
  | g, step :: steps =>
    let (result, g) := step.perform deliver g
    (g.did name step result).doAll deliver name steps

/-- The delivery of an emission to one listener, with every step that it sets off. -/
def hand : ℕ → ℕ → Event → Stage → Subscription → Stage
  | 0, n, e, g, h => (g.deliver n h e).2.2
  | depth + 1, n, e, g, h =>
    let (name, steps, g) := g.deliver n h e
    g.doAll (hand depth) name steps

/-- A step of the script itself, which begins a log. -/
def Stage.take (depth : ℕ) (g : Stage) (step : Step) : Report × Stage :=
  let (result, g) := step.perform (hand depth) (g.onState { g.state with log := [] })
  (⟨result, g.state.log.reverse, g.state.listeners.count⟩, g)

/-- The reports of a script, where deliveries are nested at most `depth` deep, and its trace. -/
def traced (depth : ℕ) : List Step → Stage → List Report × List Mark
  | [], g => ([], g.trace)
  | step :: script, g =>
    let (report, g) := g.take depth step
    let (reports, trace) := traced depth script g
    (report :: reports, trace)

/-- How many lists of steps there are in a script. -/
def lists (script : List Step) : ℕ := (script.map Step.lists).sum

def trace (script : List Step) : List Mark := (traced (lists script) script .start).2

/-! ## The trace is beside the run -/

/-- A step of the script, without the trace. -/
def State.take (depth : ℕ) (s : State) (step : Step) : Report × State :=
  let (result, s) := step.run (Script.deliver depth) { s with log := [] }
  (⟨result, s.log.reverse, s.listeners.count⟩, s)

section Erasure

variable {deliver : ℕ → Event → Stage → Subscription → Stage}
  {deliver' : Event → State → Subscription → State}

theorem foldl_state (hdeliver : ∀ n e g h, (deliver n e g h).state = deliver' e g.state h) (n : ℕ)
    (e : Event) (handles : List Subscription) (g : Stage) :
    (handles.foldl (deliver n e) g).state = handles.foldl (deliver' e) g.state := by
  symm
  exact List.foldl_hom Stage.state fun g h => (hdeliver n e g h).symm

theorem Step.perform_state
    (hdeliver : ∀ n e g h, (deliver n e g h).state = deliver' e g.state h) (step : Step) (g : Stage) :
    (step.perform deliver g).1 = (step.run deliver' g.state).1 ∧
      (step.perform deliver g).2.state = (step.run deliver' g.state).2 := by
  cases step with
  | subscribe name r plan => exact ⟨rfl, rfl⟩
  | unsubscribe name =>
    simp only [perform, run]
    cases g.state.leaver? name <;> exact ⟨rfl, rfl⟩
  | emit e => exact ⟨rfl, foldl_state hdeliver _ e _ _⟩
  | count => exact ⟨rfl, rfl⟩

theorem Stage.doAll_state
    (hdeliver : ∀ n e g h, (deliver n e g h).state = deliver' e g.state h) (name : String)
    (steps : List Step) (g : Stage) :
    (g.doAll deliver name steps).state = steps.foldl (fun s step =>
      let (result, s) := step.run deliver' s
      { s with log := .did name step result :: s.log }) g.state := by
  induction steps generalizing g with
  | nil => rfl
  | cons step steps ih =>
    obtain ⟨hresult, hstate⟩ := step.perform_state hdeliver g
    rw [List.foldl_cons, doAll, ih]
    simp only [did, onState, hresult, hstate]

theorem hand_state (depth n : ℕ) (e : Event) (g : Stage) (h : Subscription) :
    (hand depth n e g h).state = Script.deliver depth e g.state h := by
  induction depth generalizing n e g h with
  | zero => rfl
  | succ depth ih => exact Stage.doAll_state ih _ _ _

theorem Stage.take_state (depth : ℕ) (g : Stage) (step : Step) :
    (g.take depth step).1 = (g.state.take depth step).1 ∧
      (g.take depth step).2.state = (g.state.take depth step).2 := by
  obtain ⟨hresult, hstate⟩ :=
    step.perform_state (hand_state depth) (g.onState { g.state with log := [] })
  constructor
  · simp only [take, State.take]
    rw [hresult, hstate]
    rfl
  · exact hstate

theorem run_eq (script : List Step) :
    run script = (script.foldl (fun (acc : List Report × State) step =>
      ((acc.2.take (lists script) step).1 :: acc.1, (acc.2.take (lists script) step).2))
        ([], .empty)).1.reverse := by
  have hdepth : script.foldl (fun sum step => sum + step.lists) 0 = lists script := by
    rw [lists, List.sum_eq_foldl, List.foldl_map]
  rw [← hdepth]
  rfl

theorem traced_fst (script : List Step) : (traced (lists script) script .start).1 = run script := by
  have hreports : ∀ (steps : List Step) (reports : List Report) (g : Stage),
      (steps.foldl (fun (acc : List Report × State) step =>
        ((acc.2.take (lists script) step).1 :: acc.1, (acc.2.take (lists script) step).2))
          (reports, g.state)).1.reverse =
        reports.reverse ++ (traced (lists script) steps g).1 := by
    intro steps
    induction steps with
    | nil => simp [traced]
    | cons step steps ih =>
      intro reports g
      obtain ⟨hreport, hstate⟩ := g.take_state (lists script) step
      rw [List.foldl_cons, ← hreport, ← hstate, ih, List.reverse_cons, List.append_assoc]
      rfl
  rw [run_eq]
  exact (hreports script [] .start).symm

end Erasure

/-! ## The trace can be read -/

def Entry.shown? : Entry → Option (String × Event)
  | .delivered name e => some (name, e)
  | .did _ _ _ => none

/-- The deliveries that a log shows, in order. -/
def shown (log : List Entry) : List (String × Event) := log.filterMap Entry.shown?

/-- These frames are what the trace leaves, and before the log it has shown what is `past`. -/
structure Follows (past : List (String × Event)) (frames : List Frame) (g : Stage) : Prop where
  reads : Status.start.ReadsAll g.trace ⟨g.emissions, g.state.listeners, frames⟩
  shows : g.trace.filterMap Mark.shown? = past ++ shown g.state.log.reverse

theorem follows_start : Follows [] [] .start := ⟨.nil _, rfl⟩

theorem State.unsubscribe_cases (s : State) (name : String) :
    (s.leaver? name = none ∧ (s.unsubscribe name).2 = s) ∨
      ∃ h listeners, s.leaver? name = some h ∧ s.listeners.unsubscribe h = (true, listeners) ∧
        (s.unsubscribe name).2 = { s with listeners := listeners } := by
  unfold State.unsubscribe State.leaver?
  cases hname : s.names.lookup name with
  | none => exact Or.inl ⟨rfl, rfl⟩
  | some h =>
    cases hleft : s.listeners.unsubscribe h with
    | mk found listeners =>
      cases found with
      | false =>
        obtain rfl := Listeners.unsubscribe_eq_false hleft
        left
        simp [hleft]
      | true =>
        right
        exact ⟨h, listeners, by simp [hleft], hleft, by simp [hleft]⟩

section Reading

variable {past : List (String × Event)} {frames : List Frame} {g : Stage}

/-- A mark that shows no delivery, beside a state with the same log. -/
theorem Follows.mark (h : Follows past frames g) {g' : Stage} {m : Mark} {frames' : List Frame}
    (hmark : Status.Reads ⟨g.emissions, g.state.listeners, frames⟩ m
      ⟨g'.emissions, g'.state.listeners, frames'⟩)
    (hshown : m.shown? = none) (htrace : g'.trace = g.trace ++ [m])
    (hlog : g'.state.log = g.state.log) : Follows past frames' g' := by
  constructor
  · rw [htrace]
    exact h.reads.snoc hmark
  · rw [htrace, hlog, List.filterMap_append, h.shows]
    simp [hshown]

theorem Follows.deliver {n : ℕ} {e : Event} {handle : Subscription} {waiting : List Subscription}
    (h : Follows past (⟨n, e, handle :: waiting⟩ :: frames) g) :
    Follows past (⟨n, e, waiting⟩ :: frames) (g.deliver n handle e).2.2 := by
  constructor
  · exact h.reads.snoc (.delivered _ _ _ _ _ _ _ _)
  · have hshows := h.shows
    simp only [Stage.deliver, Stage.mark, Stage.onState, State.deliver, List.filterMap_append, shown,
      List.reverse_cons] at hshows ⊢
    rw [hshows, List.append_assoc]
    rfl

theorem Follows.did (h : Follows past frames g) (name : String) (step : Step) (result : Result) :
    Follows past frames (g.did name step result) := by
  constructor
  · exact h.reads
  · have hlog : shown (g.did name step result).state.log.reverse = shown g.state.log.reverse := by
      simp only [Stage.did, Stage.onState, shown, List.reverse_cons, List.filterMap_append]
      exact List.append_nil _
    rw [hlog]
    exact h.shows

variable {deliver : ℕ → Event → Stage → Subscription → Stage}

theorem Follows.foldl (hdeliver : ∀ n e h waiting frames g,
      Follows past (⟨n, e, h :: waiting⟩ :: frames) g →
        Follows past (⟨n, e, waiting⟩ :: frames) (deliver n e g h))
    {n : ℕ} {e : Event} {waiting : List Subscription}
    (h : Follows past (⟨n, e, waiting⟩ :: frames) g) :
    Follows past (⟨n, e, []⟩ :: frames) (waiting.foldl (deliver n e) g) := by
  induction waiting generalizing g with
  | nil => exact h
  | cons handle waiting ih => exact ih (hdeliver n e handle waiting frames g h)

theorem Follows.perform (hdeliver : ∀ n e h waiting frames g,
      Follows past (⟨n, e, h :: waiting⟩ :: frames) g →
        Follows past (⟨n, e, waiting⟩ :: frames) (deliver n e g h))
    (h : Follows past frames g) (step : Step) :
    Follows past frames (step.perform deliver g).2 := by
  cases step with
  | subscribe name r plan => exact h.mark (.joined _ _ _ r) rfl rfl rfl
  | unsubscribe name =>
    simp only [Step.perform]
    rcases g.state.unsubscribe_cases name with ⟨hnone, hstate⟩ | ⟨leaver, l, hsome, hleft, hstate⟩
    · have hsame : g.onState (g.state.unsubscribe name).2 = g := by
        rw [hstate]
        rfl
      rw [hnone]
      simpa only [hsame] using h
    · rw [hsome]
      refine h.mark (m := .left leaver) (.left _ _ _ _ _ ?_) rfl rfl ?_
      · simpa only [Stage.mark, Stage.onState, hstate] using hleft
      · simp only [Stage.mark, Stage.onState, hstate]
  | emit e =>
    have hbegun : Follows past
        (⟨g.emissions, e, g.state.listeners.recipients e⟩ :: frames) (g.begin e) :=
      h.mark (.begun _ _ _ e) rfl rfl rfl
    exact (hbegun.foldl hdeliver).mark (.ended _ _ _ _ e) rfl rfl rfl
  | count => exact h

theorem Follows.doAll (hdeliver : ∀ n e h waiting frames g,
      Follows past (⟨n, e, h :: waiting⟩ :: frames) g →
        Follows past (⟨n, e, waiting⟩ :: frames) (deliver n e g h))
    (h : Follows past frames g) (name : String) (steps : List Step) :
    Follows past frames (g.doAll deliver name steps) := by
  induction steps generalizing g with
  | nil => exact h
  | cons step steps ih => exact ih ((h.perform hdeliver step).did name step _)

theorem Follows.hand (depth n : ℕ) (e : Event) (handle : Subscription)
    (waiting : List Subscription) (frames : List Frame) (g : Stage)
    (h : Follows past (⟨n, e, handle :: waiting⟩ :: frames) g) :
    Follows past (⟨n, e, waiting⟩ :: frames) (Script.hand depth n e g handle) := by
  induction depth generalizing n e handle waiting frames g with
  | zero => exact h.deliver
  | succ depth ih => exact h.deliver.doAll ih _ _

theorem Follows.take (depth : ℕ) (h : Follows past [] g) (step : Step) :
    Follows (past ++ shown g.state.log.reverse) [] (g.take depth step).2 := by
  refine Follows.perform (Follows.hand depth) ?_ step
  constructor
  · exact h.reads
  · simpa [Stage.onState, shown] using h.shows

theorem Follows.traced (depth : ℕ) (script : List Step) (h : Follows past [] g) :
    (∃ τ, Status.start.ReadsAll (Script.traced depth script g).2 τ ∧ τ.frames = []) ∧
      (Script.traced depth script g).2.filterMap Mark.shown? =
        past ++ shown g.state.log.reverse ++
          (Script.traced depth script g).1.flatMap fun report => shown report.log := by
  induction script generalizing g past with
  | nil => exact ⟨⟨_, h.reads, rfl⟩, by simpa [Script.traced] using h.shows⟩
  | cons step script ih =>
    obtain ⟨hreads, hshows⟩ := ih (h.take depth step)
    refine ⟨hreads, hshows.trans ?_⟩
    simp [Script.traced, Stage.take]

end Reading

/-! ## The depth that a run needs -/

theorem Step.lists_subscribe (name : String) (r : Registry) (plan : List (List Step)) :
    (Step.subscribe name r plan).lists = (plan.map fun steps => 1 + Script.lists steps).sum := by
  have hsteps : ∀ (sum : ℕ) (steps : List Step),
      steps.foldl (fun sum step => sum + step.lists) sum = sum + Script.lists steps := by
    intro sum steps
    induction steps generalizing sum with
    | nil => simp [Script.lists]
    | cons step steps ih =>
      rw [List.foldl_cons, ih]
      simp [Script.lists, Nat.add_assoc]
  simp only [Step.lists, hsteps]
  rw [List.sum_eq_foldl, List.foldl_map]
  simp only [Nat.add_assoc]

/-- The lists of steps that a plan still holds, with those inside them. -/
def Listener.left (l : Listener) : ℕ := (l.plan.map fun steps => 1 + lists steps).sum

def State.left (s : State) : ℕ := (s.known.map fun p => p.2.left).sum

theorem left_add_left_filter (known : List (Subscription × Listener)) (h : Subscription) :
    ((known.lookup h).getD ⟨"", []⟩).left +
        ((known.filter (·.1 != h)).map fun p => p.2.left).sum ≤
      (known.map fun p => p.2.left).sum := by
  induction known with
  | nil => simp [Listener.left]
  | cons p known ih =>
    obtain ⟨handle, l⟩ := p
    by_cases hhandle : h = handle
    · subst hhandle
      have hfilter : ((known.filter (·.1 != h)).map fun p => p.2.left).sum ≤
          (known.map fun p => p.2.left).sum :=
        (List.filter_sublist.map _).sum_le_sum (fun _ _ => Nat.zero_le _)
      simpa [List.lookup_cons] using hfilter
    · have hne : handle ≠ h := fun heq => hhandle heq.symm
      have hlookup : (⟨handle, l⟩ :: known).lookup h = known.lookup h := by
        rw [List.lookup_cons, beq_false_of_ne hhandle]
      rw [hlookup, List.filter_cons_of_pos (by simpa using hne), List.map_cons, List.map_cons,
        List.sum_cons, List.sum_cons]
      omega

/-- What a delivery sets off is no longer left. -/
theorem State.left_deliver (s : State) (h : Subscription) (e : Event) :
    (s.deliver h e).2.2.left + lists (s.deliver h e).2.1 ≤ s.left ∧
      ((s.deliver h e).2.1 ≠ [] → (s.deliver h e).2.2.left + lists (s.deliver h e).2.1 < s.left) := by
  have hknown := left_add_left_filter s.known h
  simp only [deliver, State.left, State.listener, List.map_cons, List.sum_cons]
  cases hplan : ((s.known.lookup h).getD ⟨"", []⟩).plan with
  | nil =>
    simp only [Listener.left, hplan, List.map_nil, List.sum_nil] at hknown
    simpa [Listener.left, lists] using hknown
  | cons steps plan =>
    simp only [Listener.left, hplan, List.map_cons, List.sum_cons] at hknown
    simp only [Listener.left, List.headD_cons, List.tail_cons]
    omega

section Depth

variable {deliver deliver' : ℕ → Event → Stage → Subscription → Stage}

theorem left_foldl (hdeliver : ∀ n e g h, (deliver n e g h).state.left ≤ g.state.left) (n : ℕ)
    (e : Event) (handles : List Subscription) (g : Stage) :
    (handles.foldl (deliver n e) g).state.left ≤ g.state.left := by
  induction handles generalizing g with
  | nil => exact le_rfl
  | cons h handles ih => exact (ih _).trans (hdeliver n e g h)

theorem Step.left_perform
    (hdeliver : ∀ n e g h, (deliver n e g h).state.left ≤ g.state.left) (step : Step) (g : Stage) :
    (step.perform deliver g).2.state.left ≤ g.state.left + step.lists := by
  cases step with
  | subscribe name r plan =>
    rw [lists_subscribe]
    simp [perform, State.subscribe, State.left, Listener.left, Stage.mark, Stage.onState,
      Nat.add_comm]
  | unsubscribe name =>
    have hknown : (g.state.unsubscribe name).2.known = g.state.known := by
      rcases g.state.unsubscribe_cases name with ⟨-, hstate⟩ | ⟨_, _, -, -, hstate⟩ <;> rw [hstate]
    have hleft : (g.state.unsubscribe name).2.left = g.state.left := by
      rw [State.left, hknown, State.left]
    simp only [perform]
    cases g.state.leaver? name <;> exact hleft.trans_le (Nat.le_add_right _ _)
  | emit e => exact (left_foldl hdeliver _ e _ _).trans (Nat.le_add_right _ _)
  | count => exact Nat.le_add_right _ _

theorem Stage.left_doAll (hdeliver : ∀ n e g h, (deliver n e g h).state.left ≤ g.state.left)
    (name : String) (steps : List Step) (g : Stage) :
    (g.doAll deliver name steps).state.left ≤ g.state.left + lists steps := by
  induction steps generalizing g with
  | nil => exact Nat.le_add_right _ _
  | cons step steps ih =>
    have hstep := step.left_perform hdeliver g
    calc (g.doAll deliver name (step :: steps)).state.left
        ≤ (step.perform deliver g).2.state.left + lists steps := ih _
      _ ≤ g.state.left + (step.lists + lists steps) := by omega

theorem left_hand (depth n : ℕ) (e : Event) (g : Stage) (h : Subscription) :
    (hand depth n e g h).state.left ≤ g.state.left := by
  have hdelivered := (g.state.left_deliver h e).1
  induction depth generalizing n e g h with
  | zero => exact (Nat.le_add_right _ _).trans hdelivered
  | succ depth ih =>
    refine (Stage.left_doAll (fun n e g h => ih n e g h (g.state.left_deliver h e).1) _ _ _).trans ?_
    exact hdelivered

/-- Two ways to deliver that agree where no more than this is left. -/
def AgreeUpTo (bound : ℕ) (deliver deliver' : ℕ → Event → Stage → Subscription → Stage) : Prop :=
  ∀ n e g h, g.state.left ≤ bound → deliver n e g h = deliver' n e g h

theorem AgreeUpTo.perform {bound : ℕ} (hagree : AgreeUpTo bound deliver deliver')
    (hdeliver : ∀ n e g h, (deliver n e g h).state.left ≤ g.state.left) {g : Stage}
    (hg : g.state.left ≤ bound) (step : Step) : step.perform deliver g = step.perform deliver' g := by
  cases step with
  | subscribe name r plan => rfl
  | unsubscribe name => rfl
  | emit e =>
    have hfoldl : ∀ (n : ℕ) (handles : List Subscription) (g : Stage), g.state.left ≤ bound →
        handles.foldl (deliver n e) g = handles.foldl (deliver' n e) g := by
      intro n handles
      induction handles with
      | nil => exact fun g _ => rfl
      | cons h handles ih =>
        intro g hg
        rw [List.foldl_cons, List.foldl_cons, ← hagree n e g h hg]
        exact ih _ ((hdeliver n e g h).trans hg)
    have hreached := hfoldl g.emissions (g.state.listeners.recipients e) (g.begin e) hg
    simp only [Step.perform, hreached]
  | count => rfl

theorem AgreeUpTo.doAll {bound : ℕ} (hagree : AgreeUpTo bound deliver deliver')
    (hdeliver : ∀ n e g h, (deliver n e g h).state.left ≤ g.state.left) (name : String)
    (steps : List Step) {g : Stage} (hg : g.state.left + lists steps ≤ bound) :
    g.doAll deliver name steps = g.doAll deliver' name steps := by
  induction steps generalizing g with
  | nil => rfl
  | cons step steps ih =>
    have hlists : lists (step :: steps) = step.lists + lists steps := rfl
    have hstep := step.left_perform hdeliver g
    have hsame := hagree.perform hdeliver (Nat.le_of_add_right_le hg) step
    rw [Stage.doAll, Stage.doAll, ← hsame]
    refine ih ?_
    calc (step.perform deliver g).2.state.left + lists steps
        ≤ g.state.left + lists (step :: steps) := by omega
      _ ≤ bound := hg

/-- A depth that is not less than what is left is never reached. -/
theorem agreeUpTo_hand (depth : ℕ) : AgreeUpTo depth (hand depth) (hand (depth + 1)) := by
  induction depth with
  | zero =>
    intro n e g h hg
    have hsteps : (g.state.deliver h e).2.1 = [] := by
      by_contra hne
      have hlt := (g.state.left_deliver h e).2 hne
      omega
    simp [hand, Stage.deliver, hsteps, Stage.doAll]
  | succ depth ih =>
    intro n e g h hg
    by_cases hsteps : (g.state.deliver h e).2.1 = []
    · simp [hand, Stage.deliver, hsteps, Stage.doAll]
    · have hlt := (g.state.left_deliver h e).2 hsteps
      refine ih.doAll (left_hand depth) _ _ (Nat.le_of_lt_succ (hlt.trans_le ?_))
      exact hg

theorem traced_succ {depth : ℕ} (script : List Step) {g : Stage}
    (hg : g.state.left + lists script ≤ depth) :
    traced (depth + 1) script g = traced depth script g := by
  induction script generalizing g with
  | nil => rfl
  | cons step script ih =>
    have hlists : lists (step :: script) = step.lists + lists script := rfl
    have hstep := step.left_perform (left_hand depth) (g.onState { g.state with log := [] })
    have hsame : g.take (depth + 1) step = g.take depth step := by
      have hperform := (agreeUpTo_hand depth).perform (left_hand depth)
        (g := g.onState { g.state with log := [] }) (Nat.le_of_add_right_le hg) step
      rw [Stage.take, Stage.take, hperform]
    have hrest : traced (depth + 1) script (g.take depth step).2 =
        traced depth script (g.take depth step).2 := by
      refine ih ?_
      calc (g.take depth step).2.state.left + lists script
          ≤ g.state.left + lists (step :: script) := by
            have hleft : (g.take depth step).2.state.left ≤ g.state.left + step.lists := hstep
            omega
        _ ≤ depth := hg
    rw [traced, traced, hsame]
    simp only [hrest]

theorem traced_of_le {depth : ℕ} (script : List Step) (hdepth : lists script ≤ depth) :
    traced depth script .start = traced (lists script) script .start := by
  induction depth, hdepth using Nat.le_induction with
  | base => rfl
  | succ depth hdepth ih =>
    have hstart : Stage.start.state.left = 0 := rfl
    rw [traced_succ script (by omega), ih]

end Depth

/-- However deep listeners subscribe, unsubscribe and emit while they are called, the trace of a
script is dispatched, and it is the trace of the reports that the script gives. -/
theorem run_dispatched (script : List Step) :
    (∀ depth, lists script ≤ depth → traced depth script .start = (run script, trace script)) ∧
      (trace script).filterMap Mark.shown? = (run script).flatMap (fun report => shown report.log) ∧
      Dispatched (trace script) := by
  have hreports := traced_fst script
  obtain ⟨⟨τ, hreads, hend⟩, hshows⟩ := follows_start.traced (lists script) script
  refine ⟨?_, ?_, ?_⟩
  · intro depth hdepth
    rw [traced_of_le script hdepth, ← hreports]
    rfl
  · rw [← hreports]
    exact hshows
  · exact Status.dispatched_of_readsAll hreads hend

/-- Wherever a run has got to: to unsubscribe a listener that is registered is answered with yes,
leaves its mark, and takes the listener out of the registries. -/
theorem Follows.perform_unsubscribe {past : List (String × Event)} {frames : List Frame}
    {g : Stage} (h : Follows past frames g)
    (deliver : ℕ → Event → Stage → Subscription → Stage) {name : String} {listener : Subscription}
    {r : Registry} (hname : g.state.names.lookup name = some listener)
    (hmem : listener ∈ g.state.listeners.of r) :
    ∃ next, (Step.unsubscribe name).perform deliver g = (.removed true, next) ∧
      next.trace = g.trace ++ [.left listener] ∧ ∀ q, listener ∉ next.state.listeners.of q := by
  have hfound : (g.state.listeners.unsubscribe listener).1 = true :=
    (Listeners.unsubscribe_fst_iff _ _).mpr ⟨r, hmem⟩
  have hleaver : g.state.leaver? name = some listener := by
    simp [State.leaver?, hname, hfound]
  have hresult : (g.state.unsubscribe name).1 = .removed true := by
    simp [State.unsubscribe, hname, hfound]
  let next := (g.onState (g.state.unsubscribe name).2).mark (.left listener)
  refine ⟨next, ?_, rfl, fun q hq => ?_⟩
  · simp only [Step.perform, hleaver, hresult]
    rfl
  · have hleft : g.state.listeners.unsubscribe listener = (true, next.state.listeners) := by
      have hstate : next.state.listeners = (g.state.listeners.unsubscribe listener).2 := by
        simp [next, Stage.mark, Stage.onState, State.unsubscribe, hname]
      exact Prod.ext hfound hstate.symm
    have hrecords := (Status.records_of_readsAll h.reads).left hleft
    rw [hrecords.of_eq, mem_registered] at hq
    exact hq.2 (by simp [leavers, Mark.left?])

/-- The first listener removes the second, adds a third and emits again: the second still gets the
outer event and not the inner one, and the third gets the inner one only. -/
example (outer inner : TransferEvent) :
    (traced 1 [
        .subscribe "a" .transfer
          [[.unsubscribe "b", .subscribe "c" .transfer [], .emit (.transfer inner)]],
        .subscribe "b" .transfer [], .emit (.transfer outer)] .start).2 =
      [.joined ⟨0⟩ .transfer, .joined ⟨1⟩ .transfer, .begun 0 (.transfer outer),
        .delivered 0 ⟨0⟩ "a" (.transfer outer),
        .left ⟨1⟩, .joined ⟨2⟩ .transfer, .begun 1 (.transfer inner),
        .delivered 1 ⟨0⟩ "a" (.transfer inner), .delivered 1 ⟨2⟩ "c" (.transfer inner), .ended 1,
        .delivered 0 ⟨1⟩ "b" (.transfer outer), .ended 0] := by
  rfl

end FaxClient.Event.Script
