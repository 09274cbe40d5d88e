import FaxClient.Proofs.Pool.Drain

/-!
# How far a pool falls short of its smallest size

A start or a restart fills a pool up to its smallest size.  Then let one call be made after the
other, each to its end, and let every creation succeed.  A member that comes back unusable is
replaced, and so is a flagged one if too few would be left; but an idle member that an acquisition
finds unusable is struck out, and none is created in its place as long as another one is idle.  So
the members that acquisitions have struck out since then are all that a pool can lack.

What carries the proof is that the places taken, the creations that are still due for the errand
under way, and the members struck out make up the smallest size together.
-/

namespace FaxClient.Pool

/-! ## Calm runs -/

/-- Whether a signal is no bad news for a creation: it connects, and what it asks for when it logs
in is granted. -/
def Task.thrives (s : Settings) (t : Task) : Signal → Bool
  | .unconnected _ => false
  | .replied r =>
    match t.doing with
    | .creating (.loggingIn _ request rest) => (r.bind (Login.next s request rest)).isOk
    | _ => true
  | _ => true

def Ledger.Found.struck : Ledger.Found → ℕ
  | .stale _ => 1
  | _ => 0

/-- The idle members that the next section of a task strikes out. -/
def Task.struck (isOpen : Line → Bool) (l : Ledger) (t : Task) : ℕ :=
  match t.doing, t.errand with
  | .ready, .acquire _ => (l.take isOpen).1.struck
  | _, _ => 0

namespace World

/-- Whether an action belongs to a calm run: calls are made one after the other and are not
abandoned, nobody stops the pool or lets go of a member, and every creation succeeds. -/
def isCalm (s : Settings) (w : World) : Action → Bool
  | .begin _ .stop => false
  | .begin .. | .use .. => w.tasks.isEmpty
  | .advance t signal => (w.task? t).all fun task => task.thrives s signal
  | .abandon _ | .letGo _ => false
  | .invalidate _ | .die _ | .wait _ => true

def struck (w : World) : Action → ℕ
  | .advance t _ => ((w.task? t).map fun task => task.struck w.isOpen w.ledger).getD 0
  | _ => 0

/-- Where a calm run leads, and how many idle members are struck out in it. -/
def serve (s : Settings) : World → List Action → Option (World × ℕ)
  | w, [] => some (w, 0)
  | w, a :: rest =>
    if w.isCalm s a then
      (w.act s a).bind fun next =>
        (serve s next rest).map fun (last, later) => (last, w.struck a + later)
    else none

end World

/-! ## What makes up the smallest size -/

/-- The creations that are still to be begun for an errand. -/
def Errand.due : Errand → ℕ
  | .fill left _ => left
  | .replace wanted => wanted.toNat
  | .acquire _ | .grow _ | .release _ | .start | .stop | .drain .. | .restart | .renew .. | .ask ..
  | .leave _ => 0

/-- Whether a creation may be under way for an errand. -/
def Errand.creates : Errand → Bool
  | .grow _ | .fill .. | .replace false => true
  | _ => false

/-- Whether an errand neither stops a pool nor starts it. -/
def Errand.serves : Errand → Bool
  | .acquire _ | .grow _ | .release _ | .replace _ | .fill .. | .ask .. | .leave _ => true
  | .start | .stop | .drain .. | .restart | .renew .. => false

theorem Errand.serves_of_creates {errand : Errand} (h : errand.creates = true) :
    errand.serves = true := by
  cases errand <;> first | rfl | simp [creates] at h

def Creation.thrives : Creation → Bool
  | .connecting _ | .loggingIn .. | .ended (.ok _) => true
  | .closing .. | .ended (.error _) => false

/-- What a step of a creation that thrives makes of its task. -/
inductive Creation.Stepped (s : Settings) (now : Time) (l : Ledger) (errand : Errand) :
    Creation → Signal → Step → Prop
  | connected (id : MemberId) (line : Line) :
      Stepped s now l errand (.connecting id) (.connected line)
        (Task.continuing l errand
          (.creating (Task.loginWith ⟨id, line, false, true⟩ (Login.requests s))) .none)
  | granted (m : Member) (request : Login) (rest rest' : List Login) (reply : Reply)
      (hnext : Login.next s request rest reply = .ok rest') :
      Stepped s now l errand (.loggingIn m request rest) (.replied (.ok reply))
        (Task.continuing l errand (.creating (Task.loginWith m rest')) .none)
  | ended (m : Member) :
      Stepped s now l errand (.ended (.ok m)) .go (Task.settle s now l errand (.ok m))

theorem Creation.stepped {s : Settings} {now : Time} {isOpen : Line → Bool} {l : Ledger}
    {errand : Errand} {c : Creation} {signal : Signal} {st : Step} (hc : c.thrives = true)
    (hthrives : Task.thrives s ⟨errand, .creating c⟩ signal = true)
    (hstep : Task.step s now isOpen l ⟨errand, .creating c⟩ signal = some st) :
    c.Stepped s now l errand signal st := by
  cases c with
  | connecting id =>
    cases signal with
    | connected line =>
      obtain rfl := Option.some.inj hstep
      exact .connected id line
    | unconnected e => simp [Task.thrives] at hthrives
    | _ => simp [Task.step] at hstep
  | loggingIn m request rest =>
    cases signal with
    | replied r =>
      cases hnext : r.bind (Login.next s request rest) with
      | error e => simp [Task.thrives, hnext, Except.isOk, Except.toBool] at hthrives
      | ok rest' =>
        simp only [Task.step, hnext] at hstep
        obtain rfl := Option.some.inj hstep
        cases r with
        | error e => simp [Except.bind] at hnext
        | ok reply => exact .granted m request rest rest' reply hnext
    | _ => simp [Task.step] at hstep
  | closing m e limit => simp [thrives] at hc
  | ended result =>
    cases result with
    | error e => simp [thrives] at hc
    | ok m =>
      cases signal with
      | go =>
        obtain rfl := Option.some.inj hstep
        exact .ended m
      | _ => simp [Task.step] at hstep

namespace Ledger

variable {s : Settings} {l l' : Ledger} {n n' : ℕ}

/-- An open pool with places enough, but for this many. -/
structure Supplied (s : Settings) (l : Ledger) (n : ℕ) : Prop where
  not_stopped : l.stopped = false
  minSize_le : s.minSize ≤ l.occupied + n

theorem Supplied.of_le (h : l.Supplied s n) (hstopped : l'.stopped = l.stopped)
    (hle : l.occupied + n ≤ l'.occupied + n') : l'.Supplied s n' :=
  ⟨hstopped.trans h.not_stopped, h.minSize_le.trans hle⟩

theorem occupied_le_forget (l : Ledger) (id : MemberId) :
    l.occupied ≤ (l.forget id).occupied + 1 := by
  have hlength : l.known.length ≤ (l.known.erase id).length + 1 := by
    rw [List.length_erase]
    split <;> omega
  simp only [occupied, forget]
  omega

theorem supplied_due_iff {errand : Errand} (hdue : errand.due = 0) :
    l.Supplied s (errand.due + n) ↔ l.Supplied s n := by
  rw [hdue, zero_add]

theorem Supplied.forget (h : l.Supplied s n) (id : MemberId) :
    (l.forget id).Supplied s (n + 1) := by
  refine h.of_le rfl ?_
  have hle := l.occupied_le_forget id
  omega

theorem live_le_occupied (l : Ledger) : l.live ≤ l.occupied := Nat.sub_le _ _

theorem supplied_missing (hopen : l.stopped = false) : l.Supplied s (l.missing s) := by
  refine ⟨hopen, ?_⟩
  have hlive := l.live_le_occupied
  simp only [missing]
  omega

/-- A pool without a free place has its smallest size. -/
theorem supplied_of_atCapacity (hbounds : s.maxSize = 0 ∨ s.minSize ≤ s.maxSize)
    (hopen : l.stopped = false) (hfull : l.atCapacity s = true) (n : ℕ) : l.Supplied s n := by
  obtain ⟨⟨-, hlimit⟩, hfull⟩ : (s.pooling = true ∧ s.maxSize ≠ 0) ∧ s.maxSize ≤ l.occupied := by
    simpa [atCapacity] using hfull
  refine ⟨hopen, ?_⟩
  rcases hbounds with hzero | hle
  · exact absurd hzero hlimit
  · omega

/-- A member that could be used, or too few of them, is not given up without being replaced. -/
theorem minSize_le_live_of_giveBack {isOpen : Line → Bool} {m m' : Member}
    (hpooling : s.pooling = true) (hopen : l.stopped = false) (hknown : m.id ∈ l.known)
    (hback : l.giveBack s isOpen m = (.doomed m' false, l')) : s.minSize ≤ l'.live := by
  unfold giveBack at hback
  dsimp only at hback
  split at hback
  · simp at hback
  · obtain ⟨hdoomed, rfl⟩ := Prod.mk.inj hback
    obtain ⟨-, hreplace⟩ := Returned.doomed.inj hdoomed
    simp only [hpooling, hopen, List.contains_iff_mem.mpr hknown, Bool.true_and, Bool.not_false,
      Bool.or_eq_false_iff, decide_eq_false_iff_not] at hreplace
    exact Nat.le_of_not_lt hreplace.2

/-- A member that is closed on its return is replaced, or enough are left without it. -/
theorem Supplied.giveBack {isOpen : Line → Bool} {m m' : Member} {replace : Bool}
    (hpooling : s.pooling = true) (h : l.Supplied s n)
    (hback : l.giveBack s isOpen m = (.doomed m' replace, l')) :
    l'.Supplied s ((Errand.replace replace).due + n) := by
  have hforget := (giveBack_eq_doomed hback).2
  cases replace with
  | true =>
    rw [hforget, add_comm]
    exact h.forget m.id
  | false =>
    by_cases hknown : m.id ∈ l.known
    · have hlive := minSize_le_live_of_giveBack hpooling h.not_stopped hknown hback
      refine ⟨(stopped_of_giveBack hback).trans h.not_stopped, ?_⟩
      have hle := l'.live_le_occupied
      omega
    · subst hforget
      refine h.of_le rfl ?_
      simp [occupied, Ledger.forget, List.erase_of_not_mem hknown, Errand.due]

theorem Supplied.publish {m : Member} (h : l.Supplied s n) (hnew : m.id ∉ l.known)
    (hcreating : 0 < l.creating) : ∃ l', l.settle.publish m = some l' ∧ l'.Supplied s n := by
  have hopen : l.settle.stopped = false := h.not_stopped
  cases hpublish : l.settle.publish m with
  | none => simp [Ledger.publish, hopen] at hpublish
  | some l' =>
    obtain rfl := publish_eq_some hpublish
    refine ⟨_, rfl, h.of_le rfl ?_⟩
    simp only [occupied, settle, List.insert_of_not_mem hnew, List.length_cons]
    omega

end Ledger

/-! ## Tasks -/

/-- A task of a calm run: the places taken, what is due for its errand, and those struck out make up
the smallest size, unless it is still to fill the pool. -/
inductive Task.Supplied (s : Settings) (l : Ledger) (k : ℕ) : Task → Prop
  | reopening {errand : Errand} (herrand : errand.reopens = true) : Supplied s l k ⟨errand, .ready⟩
  | renewing {left : List Member} {tally : Tally} {doing : Doing} (hopen : l.stopped = false)
      (hdoing : ∀ c, doing ≠ .creating c) : Supplied s l k ⟨.renew left tally, doing⟩
  | creating {errand : Errand} {c : Creation} (herrand : errand.creates = true)
      (hc : c.thrives = true) (h : l.Supplied s (errand.due + k)) :
      Supplied s l k ⟨errand, .creating c⟩
  | serving {errand : Errand} {doing : Doing} (herrand : errand.serves = true)
      (hdoing : ∀ c, doing ≠ .creating c) (h : l.Supplied s (errand.due + k)) :
      Supplied s l k ⟨errand, doing⟩

def Step.Supplied (s : Settings) (k : ℕ) (st : Step) : Prop :=
  match st.progress with
  | .running t => t.Supplied s st.ledger k
  | .finished _ => st.ledger.Supplied s k

namespace Task

variable {s : Settings} {now : Time} {l : Ledger} {errand : Errand} {isOpen : Line → Bool} {k : ℕ}

theorem supplied_continuing {doing : Doing} {ring : Ring} (herrand : errand.serves = true)
    (hdoing : ∀ c, doing ≠ .creating c) (h : l.Supplied s (errand.due + k)) :
    (continuing l errand doing ring).Supplied s k :=
  .serving herrand hdoing h

theorem supplied_finishing {o : Outcome} {ring : Ring} (hdue : errand.due = 0)
    (h : l.Supplied s (errand.due + k)) : (finishing l o ring).Supplied s k :=
  (Ledger.supplied_due_iff hdue).mp h

theorem supplied_created (herrand : errand.serves = true) (hdue : errand ≠ .replace true)
    (h : l.Supplied s (errand.due + k)) (added : Bool) :
    (created s now l errand added).Supplied s k := by
  cases errand with
  | grow deadline => cases added <;> exact supplied_continuing rfl (by simp) h
  | fill left tally => exact supplied_continuing rfl (by simp) h
  | replace wanted =>
    cases wanted with
    | true => exact absurd rfl hdue
    | false => exact supplied_finishing rfl h
  | _ => exact supplied_finishing rfl h

theorem supplied_discarded (herrand : errand.serves = true) (h : l.Supplied s (errand.due + k))
    (success : Bool) : (discarded s now l errand success).Supplied s k := by
  have hcreated (hdue : errand ≠ .replace true) : (created s now l errand false).Supplied s k :=
    supplied_created herrand hdue h false
  cases errand with
  | acquire deadline => exact supplied_continuing rfl (by simp) h
  | replace wanted => exact supplied_continuing rfl (by simp) h
  | drain left tally => simp [Errand.serves] at herrand
  | renew left tally => simp [Errand.serves] at herrand
  | _ => exact hcreated (by simp)

theorem supplied_tryCreate (hbounds : s.maxSize = 0 ∨ s.minSize ≤ s.maxSize)
    (herrand : errand.creates = true) (h : l.Supplied s (errand.due + 1 + k)) :
    (tryCreate s now l errand).Supplied s k := by
  unfold tryCreate
  split
  · next id l' hreserve =>
    obtain ⟨-, -, rfl⟩ := Ledger.reserve_eq_some hreserve
    have hsupplied : Ledger.Supplied s
        { l with creating := l.creating + 1, next := ⟨l.next.number + 1⟩ } (errand.due + k) := by
      refine h.of_le rfl ?_
      simp only [Ledger.occupied]
      omega
    exact .creating herrand rfl hsupplied
  · next hreserve =>
    have hfull : l.atCapacity s = true := by
      by_contra hroom
      simp [Ledger.reserve, hroom] at hreserve
    have hdue : errand ≠ .replace true := by
      rintro rfl
      simp [Errand.creates] at herrand
    exact supplied_created (Errand.serves_of_creates herrand) hdue
      (Ledger.supplied_of_atCapacity hbounds h.not_stopped hfull _) false

theorem supplied_acquire {deadline : Time} (h : l.Supplied s k) :
    (proceed s now isOpen l (.acquire deadline)).Supplied s (k + (l.take isOpen).1.struck) := by
  have hdue : l.Supplied s ((Errand.acquire deadline).due + k) :=
    (Ledger.supplied_due_iff rfl).mpr h
  rcases l.take_cases isOpen with htake | htake | ⟨m, rest, -, htake | htake⟩
  · simp only [proceed, htake]
    exact supplied_finishing rfl hdue
  · simp only [proceed, htake]
    split
    · exact supplied_finishing rfl hdue
    · exact supplied_continuing rfl (by simp) hdue
  · simp only [proceed, htake]
    exact supplied_finishing rfl (hdue.of_le rfl le_rfl)
  · simp only [proceed, htake]
    have hidle : Ledger.Supplied s { l with idle := rest } ((Errand.acquire deadline).due + k) :=
      hdue.of_le rfl le_rfl
    exact supplied_continuing rfl (by simp) (hidle.forget m.id)

theorem supplied_serve (hpooling : s.pooling = true)
    (hbounds : s.maxSize = 0 ∨ s.minSize ≤ s.maxSize) (herrand : errand.serves = true)
    (h : l.Supplied s (errand.due + k)) :
    (proceed s now isOpen l errand).Supplied s (k + struck isOpen l ⟨errand, .ready⟩) := by
  cases errand with
  | acquire deadline => exact supplied_acquire ((Ledger.supplied_due_iff rfl).mp h)
  | grow deadline =>
    refine supplied_tryCreate hbounds rfl (h.of_le rfl ?_)
    simp only [struck]
    omega
  | release m =>
    rcases hback : l.giveBack s isOpen m with ⟨returned, l'⟩
    simp only [proceed, hback]
    cases returned with
    | kept =>
      obtain ⟨-, rfl⟩ := Ledger.giveBack_eq_kept hback
      exact supplied_finishing rfl (h.of_le rfl le_rfl)
    | doomed m' replace =>
      have hsupplied := (Ledger.supplied_due_iff rfl).mp h
      exact supplied_continuing rfl (by simp) (hsupplied.giveBack hpooling hback)
  | replace wanted =>
    cases wanted with
    | true => exact supplied_tryCreate hbounds rfl (h.of_le rfl (by simp [Errand.due]))
    | false => exact supplied_finishing rfl h
  | fill left tally =>
    cases left with
    | zero => exact supplied_finishing rfl h
    | succ left => exact supplied_tryCreate hbounds rfl h
  | ask m command =>
    simp only [proceed]
    split
    · exact supplied_finishing rfl h
    · exact supplied_continuing rfl (by simp) h
  | leave m => exact supplied_continuing rfl (by simp) h
  | _ => simp [Errand.serves] at herrand

theorem supplied_fill (hopen : l.stopped = false) (tally : Tally) :
    (continuing l (.fill (l.missing s) tally) .ready .none).Supplied s k := by
  refine supplied_continuing rfl (by simp) ((Ledger.supplied_missing hopen).of_le rfl ?_)
  simp only [Errand.due]
  omega

theorem supplied_proceed (hpooling : s.pooling = true)
    (hbounds : s.maxSize = 0 ∨ s.minSize ≤ s.maxSize) (h : Task.Supplied s l k ⟨errand, .ready⟩) :
    (proceed s now isOpen l errand).Supplied s (k + struck isOpen l ⟨errand, .ready⟩) := by
  cases h with
  | reopening herrand =>
    cases errand with
    | start => exact supplied_fill rfl .zero
    | restart => exact Task.Supplied.renewing l.stopped_flush (by simp)
    | _ => simp [Errand.reopens] at herrand
  | @renewing left tally doing hopen hdoing =>
    cases left with
    | nil => exact supplied_fill hopen tally
    | cons m left => exact Task.Supplied.renewing hopen (by simp)
  | serving herrand hdoing h => exact supplied_serve hpooling hbounds herrand h

theorem supplied_settle {m : Member} (herrand : errand.creates = true)
    (h : l.Supplied s (errand.due + k)) (hnew : m.id ∉ l.known) (hcreating : 0 < l.creating) :
    (settle s now l errand (.ok m)).Supplied s k := by
  obtain ⟨l', hpublish, hsupplied⟩ := h.publish hnew hcreating
  have hdue : errand ≠ .replace true := by
    rintro rfl
    simp [Errand.creates] at herrand
  have hcreated : (created s now l' errand true).Supplied s k :=
    supplied_created (Errand.serves_of_creates herrand) hdue hsupplied true
  simp only [settle, hpublish]
  exact hcreated

@[simp] theorem thrives_loginWith (m : Member) (rest : List Login) :
    (loginWith m rest).thrives = true := by
  cases rest <;> rfl

variable {signal : Signal} {st : Step}

theorem supplied_step_creating {c : Creation} (herrand : errand.creates = true)
    (hc : c.thrives = true) (h : l.Supplied s (errand.due + k))
    (hnew : ∀ m, c = .ended (.ok m) → m.id ∉ l.known ∧ 0 < l.creating)
    (hthrives : thrives s ⟨errand, .creating c⟩ signal = true)
    (hstep : step s now isOpen l ⟨errand, .creating c⟩ signal = some st) : st.Supplied s k := by
  cases Creation.stepped hc hthrives hstep with
  | connected id line => exact Task.Supplied.creating herrand (thrives_loginWith _ _) h
  | granted m request rest rest' reply hnext =>
    exact Task.Supplied.creating herrand (thrives_loginWith _ _) h
  | ended m =>
    obtain ⟨hunknown, hcreating⟩ := hnew m rfl
    exact supplied_settle herrand h hunknown hcreating

/-- A step of a task in a calm run: nothing is lost but the member that it strikes out. -/
theorem supplied_step {t : Task} (hpooling : s.pooling = true)
    (hbounds : s.maxSize = 0 ∨ s.minSize ≤ s.maxSize) (h : t.Supplied s l k)
    (hnew : ∀ m, t.doing = .creating (.ended (.ok m)) → m.id ∉ l.known ∧ 0 < l.creating)
    (hthrives : t.thrives s signal = true) (hstep : t.step s now isOpen l signal = some st) :
    st.Supplied s (k + t.struck isOpen l) := by
  cases h with
  | reopening herrand =>
    cases stepped hstep with
    | proceed errand => exact supplied_proceed hpooling hbounds (.reopening herrand)
  | creating herrand hc h =>
    exact supplied_step_creating herrand hc h (fun m hm => hnew m (congrArg _ hm)) hthrives hstep
  | renewing hopen hdoing =>
    cases stepped hstep with
    | proceed errand => exact supplied_proceed hpooling hbounds (.renewing hopen hdoing)
    | create errand c c' => exact absurd rfl (hdoing c)
    | settle errand result => exact absurd rfl (hdoing _)
    | close errand m limit => exact Task.Supplied.renewing hopen (by simp)
    | discard errand m => exact Task.Supplied.renewing hopen (by simp)
    | closed errand m limit success => exact Task.Supplied.renewing hopen (by simp)
    | wake errand limit => exact Task.Supplied.renewing hopen (by simp)
  | @serving errand doing herrand hdoing h =>
    cases stepped hstep with
    | proceed errand => exact supplied_proceed hpooling hbounds (.serving herrand hdoing h)
    | create errand c c' => exact absurd rfl (hdoing c)
    | settle errand result => exact absurd rfl (hdoing _)
    | close errand m limit => exact supplied_continuing herrand (by simp) (h.of_le rfl le_rfl)
    | discard _ m =>
      have hrevoked : (l.revoke m.id).Supplied s (errand.due + k) := h.of_le rfl le_rfl
      have hdiscarded : (discarded s now (l.revoke m.id) errand true).Supplied s k :=
        supplied_discarded herrand hrevoked true
      exact hdiscarded
    | closed errand m limit success => exact supplied_discarded herrand h success
    | wake errand limit => exact supplied_continuing herrand (by simp) h
    | answer m command r => exact supplied_finishing rfl h
    | leave m r => exact supplied_finishing rfl h

theorem Supplied.ready_of_parked {t : Task} {limit : Time} (h : t.Supplied s l k)
    (hdoing : t.doing = .parked limit) : Task.Supplied s l k { t with doing := .ready } := by
  cases h with
  | reopening herrand => exact .reopening herrand
  | renewing hopen _ => exact .renewing hopen (by simp)
  | creating herrand hc h => simp at hdoing
  | serving herrand _ h => exact .serving herrand (by simp) h

end Task

/-! ## Worlds -/

namespace World

variable {s : Settings} {w w' : World} {k : ℕ}

/-- A world of a calm run, in which at most one call is under way. -/
inductive Supplied (s : Settings) (w : World) (k : ℕ) : Prop
  | resting (htasks : w.tasks = []) (h : w.ledger.Supplied s k)
  | working {t : TaskId} {task : Task} (htasks : w.tasks = [(t, task)])
      (h : task.Supplied s w.ledger k)

/-- A member that was created is not known before it is published, and has a place. -/
theorem Reachable.notMem_known_of_ended {t : TaskId} {errand : Errand} {m : Member}
    (h : Reachable s w) (htask : w.task? t = some ⟨errand, .creating (.ended (.ok m))⟩) :
    m.id ∉ w.ledger.known ∧ 0 < w.ledger.creating := by
  have hbalanced := h.balanced
  have hshare : Task.share ⟨errand, .creating (.ended (.ok m))⟩ =
      errand.share + (.place + .arrival m.id) := rfl
  rw [share_without h.orderly htask, hshare, ← add_assoc] at hbalanced
  refine ⟨fun hknown => (hbalanced.settled hknown).notMem_arriving ?_, hbalanced.creating_pos⟩
  simp [Share.place, Share.arrival]

theorem supplied_after {t : TaskId} {task : Task} {signal : Signal} {step : Step}
    (htasks : w.tasks = [(t, task)]) (h : step.Supplied s k) :
    (w.after t signal step).Supplied s k := by
  have hledger := w.ledger_after t signal step
  obtain ⟨ledger, ring, progress⟩ := step
  cases progress with
  | running next =>
    obtain ⟨next', hput, hnext⟩ := exists_tasks_put { w with
      ledger := ledger
      lines := w.linesAfter signal
      bell := (w.bell.leave t).ring ring } t next
    have htasks' : (w.after t signal ⟨ledger, ring, .running next⟩).tasks = [(t, next')] := by
      rw [after, hput]
      simp [tasksWith, htasks]
    refine .working htasks' ?_
    rw [hledger]
    rcases hnext with rfl | ⟨⟨limit, hparked⟩, rfl⟩
    · exact h
    · exact Task.Supplied.ready_of_parked h hparked
  | finished o =>
    refine .resting ?_ ?_
    · rw [after, tasks_finish]
      simp [without, htasks]
    · rw [hledger]
      exact h

theorem supplied_launch {t : TaskId} {errand : Errand} (htasks : w.tasks = [])
    (h : Task.Supplied s w.ledger k ⟨errand, .ready⟩) : (w.launch t errand).Supplied s k := by
  have hone : (w.launch t errand).tasks = [(t, ⟨errand, .ready⟩)] := by simp [launch, htasks]
  exact .working hone h

theorem Supplied.ledger_of_resting (h : w.Supplied s k) (htasks : w.tasks = []) :
    w.ledger.Supplied s k := by
  cases h with
  | resting _ h => exact h
  | working htasks' h => simp [htasks] at htasks'

theorem Supplied.advance {t : TaskId} {task : Task} {signal : Signal} {step : Step}
    (hpooling : s.pooling = true) (hbounds : s.maxSize = 0 ∨ s.minSize ≤ s.maxSize)
    (hreachable : Reachable s w) (h : w.Supplied s k) (htask : w.task? t = some task)
    (hthrives : task.thrives s signal = true)
    (hstep : task.step s w.now w.isOpen w.ledger signal = some step) :
    (w.after t signal step).Supplied s (k + task.struck w.isOpen w.ledger) := by
  cases h with
  | resting htasks _ => simp [task?, htasks] at htask
  | @working t' task' htasks h =>
    obtain ⟨rfl, rfl⟩ := eq_of_task? htasks htask
    refine supplied_after htasks (Task.supplied_step hpooling hbounds h ?_ hthrives hstep)
    intro m hm
    obtain ⟨errand, doing⟩ := task
    obtain rfl : doing = .creating (.ended (.ok m)) := hm
    exact hreachable.notMem_known_of_ended htask

/-- An action of a calm run costs the pool the members that it strikes out, and no more. -/
theorem Supplied.act {a : Action} (hpooling : s.pooling = true)
    (hbounds : s.maxSize = 0 ∨ s.minSize ≤ s.maxSize) (hreachable : Reachable s w)
    (h : w.Supplied s k) (hcalm : w.isCalm s a = true) (hact : w.act s a = some w') :
    w'.Supplied s (k + w.struck a) := by
  have hsame {w' : World} (htasks : w'.tasks = w.tasks) (hledger : w'.ledger = w.ledger) :
      w'.Supplied s k := by
    cases h with
    | resting hnone h => exact .resting (htasks.trans hnone) (hledger ▸ h)
    | working hone h => exact .working (htasks.trans hone) (hledger ▸ h)
  cases acted hact with
  | begin t call hfresh =>
    have htasks : w.tasks = [] := by
      cases call <;> simp_all [isCalm]
    refine supplied_launch htasks ?_
    cases call with
    | acquire =>
      exact .serving rfl (by simp) ((Ledger.supplied_due_iff rfl).mpr (h.ledger_of_resting htasks))
    | start => exact .reopening rfl
    | stop => simp [isCalm] at hcalm
    | restart => exact .reopening rfl
  | use t id use m hfresh hm =>
    have htasks : w.tasks = [] := by simpa [isCalm] using hcalm
    refine supplied_launch (w := w.notHolding id) htasks ?_
    have hledger := h.ledger_of_resting htasks
    cases use <;> exact .serving rfl (by simp) ((Ledger.supplied_due_iff rfl).mpr hledger)
  | advance t signal task step htask hadmits hstep =>
    have hthrives : task.thrives s signal = true := by
      simpa [isCalm, htask] using hcalm
    have hstruck : w.struck (.advance t signal) = task.struck w.isOpen w.ledger := by
      simp [struck, htask]
    rw [hstruck]
    exact h.advance hpooling hbounds hreachable htask hthrives hstep
  | abandon t task htask => simp [isCalm] at hcalm
  | letGo id m hm => simp [isCalm] at hcalm
  | invalidate id m hm => exact hsame rfl rfl
  | die line => exact hsame rfl rfl
  | wait time htime => exact hsame rfl rfl

theorem serve_cons_eq_some {a : Action} {rest : List Action} {last : World} {n : ℕ}
    (h : serve s w (a :: rest) = some (last, n)) :
    ∃ next later, w.isCalm s a = true ∧ w.act s a = some next ∧
      serve s next rest = some (last, later) ∧ n = w.struck a + later := by
  rw [serve] at h
  split at h
  · next hcalm =>
    obtain ⟨next, hact, hrest⟩ := Option.bind_eq_some_iff.mp h
    obtain ⟨⟨last', later⟩, hserve, heq⟩ := Option.map_eq_some_iff.mp hrest
    obtain ⟨rfl, rfl⟩ := Prod.mk.inj heq
    exact ⟨next, later, hcalm, hact, hserve, rfl⟩
  · simp at h

/-- What a whole calm run costs a pool is what is struck out in it. -/
theorem Supplied.serve {actions : List Action} {last : World} {n : ℕ} (hpooling : s.pooling = true)
    (hbounds : s.maxSize = 0 ∨ s.minSize ≤ s.maxSize) (hreachable : Reachable s w)
    (h : w.Supplied s k) (hserve : serve s w actions = some (last, n)) :
    Reachable s last ∧ last.Supplied s (k + n) := by
  induction actions generalizing w k n with
  | nil =>
    obtain ⟨rfl, rfl⟩ := Prod.mk.inj (Option.some.inj hserve)
    exact ⟨hreachable, h⟩
  | cons a actions ih =>
    obtain ⟨next, later, hcalm, hact, hrest, rfl⟩ := serve_cons_eq_some hserve
    have hnext := hreachable.later (later_of_act hact)
    rw [← add_assoc]
    exact ih hnext (h.act hpooling hbounds hreachable hcalm hact) hrest

theorem Reachable.total_eq_occupied (h : Reachable s w) (htasks : w.tasks = []) :
    w.ledger.total = w.ledger.occupied := by
  have hcreating := h.creating_eq_zero (by simp [htasks])
  simp [Ledger.total, Ledger.occupied, hcreating]

/-- In a calm run from the call of a start or of a restart, whenever no call is under way, a pool
has its smallest size, but for the idle members that acquisitions have struck out since. -/
theorem Reachable.minSize_le_total_add_struck {t : TaskId} {call : Call} {actions : List Action}
    {last : World} {struck : ℕ} (h : Reachable s w) (hpooling : s.pooling = true)
    (hbounds : s.maxSize = 0 ∨ s.minSize ≤ s.maxSize) (hcall : call = .start ∨ call = .restart)
    (hserve : serve s w (.begin t call :: actions) = some (last, struck))
    (hdone : last.tasks = []) : s.minSize ≤ last.ledger.total + struck := by
  obtain ⟨next, later, hcalm, hact, hrest, rfl⟩ := serve_cons_eq_some hserve
  have hnext : next.Supplied s 0 := by
    cases acted hact with
    | begin t call hfresh =>
      have htasks : w.tasks = [] := by rcases hcall with rfl | rfl <;> simpa [isCalm] using hcalm
      refine supplied_launch htasks (.reopening ?_)
      rcases hcall with rfl | rfl <;> rfl
  obtain ⟨hlast, hsupplied⟩ := hnext.serve hpooling hbounds (h.later (later_of_act hact)) hrest
  have hminSize := (hsupplied.ledger_of_resting hdone).minSize_le
  rw [hlast.total_eq_occupied hdone]
  exact hminSize

def atLeastTwo : Settings := { Settings.default with minSize := 2 }

/-- A start creates two members, the session of the first dies, and an acquisition strikes it out
and hands out the second. -/
def wearing : List Action :=
  [.begin ⟨1⟩ .start, .advance ⟨1⟩ .go, .advance ⟨1⟩ .go, .advance ⟨1⟩ (.connected ⟨1⟩),
    .advance ⟨1⟩ .go, .advance ⟨1⟩ .go, .advance ⟨1⟩ (.connected ⟨2⟩), .advance ⟨1⟩ .go,
    .advance ⟨1⟩ .go, .die ⟨1⟩, .begin ⟨2⟩ .acquire, .advance ⟨2⟩ .go, .advance ⟨2⟩ .go,
    .advance ⟨2⟩ .go]

def worn : World where
  now := 0
  ledger := ⟨[], [⟨2⟩], [⟨2⟩], [], 0, false, 2, [⟨1⟩], ⟨3⟩⟩
  bell := ⟨true, [], [], []⟩
  tasks := []
  finished := [(⟨1⟩, .tallied ⟨2, 0⟩), (⟨2⟩, .acquired ⟨⟨2⟩, ⟨2⟩, true, true⟩)]
  held := [⟨⟨2⟩, ⟨2⟩, true, true⟩]
  lines := [⟨2⟩, ⟨1⟩]
  dead := [⟨1⟩]
  asked := [.connect, .connect]

theorem serve_wearing : serve atLeastTwo start wearing = some (worn, 1) := rfl

theorem minSize_le_total_add_struck_worn :
    serve atLeastTwo start wearing = some (worn, 1) ∧ 2 ≤ worn.ledger.total + 1 := by
  have hbounds : atLeastTwo.minSize ≤ atLeastTwo.maxSize := by decide
  have hreachable : Reachable atLeastTwo start := ⟨[], rfl⟩
  have hstart : Call.start = .start ∨ Call.start = .restart := Or.inl rfl
  exact ⟨serve_wearing, hreachable.minSize_le_total_add_struck rfl (Or.inr hbounds) hstart
    serve_wearing rfl⟩

/-- After this calm run nothing is under way, and the pool is smaller than it shall be. -/
theorem total_lt_minSize_worn : serve atLeastTwo start wearing = some (worn, 1) ∧
    worn.tasks = [] ∧ worn.ledger.total < atLeastTwo.minSize :=
  ⟨serve_wearing, rfl, by decide⟩

end World

end FaxClient.Pool
