import FaxClient.Event.Listeners
import Mathlib

/-!
# Handles among many tasks

Tasks subscribe and unsubscribe at the same time.  A call to subscribe takes a handle in one step
and puts it in its registry in the next; a call to unsubscribe looks in one registry and, if the
handle is not there, in the other.  Between two steps of a call any other may go on, so handles
need not be registered in the order in which they were taken, and two calls may look for the same
one.

The books that carry the proof are kept in lists of handles: those that were taken are the ones
below the next, each once, and those that were registered are the ones in the registries together
with the ones that calls have taken out.  So no handle is in a registry twice, and no two calls take
out the same one.
-/

namespace FaxClient.Listeners

/-- Just this handle is taken out of one of the registries. -/
structure Removes (s : Subscription) (l l' : Listeners) : Prop where
  next_eq : l'.next = l.next
  of_eq : ∃ r before after, l.of r = before ++ s :: after ∧ l'.of r = before ++ after ∧
    ∀ q, q ≠ r → l'.of q = l.of q

/-! ## Calls in steps -/

/-- A call to subscribe or to unsubscribe, by what it is about to do, or by its answer. -/
inductive Call where
  | allocating (r : Registry)
  | registering (r : Registry) (s : Subscription)
  | searching (r : Registry) (s : Subscription)
  | subscribed (r : Registry) (s : Subscription)
  | unsubscribed (s : Subscription) (found : Bool)
  deriving DecidableEq

namespace Call

def isOver : Call → Bool
  | .subscribed .. | .unsubscribed .. => true
  | .allocating _ | .registering .. | .searching .. => false

def subscribes : Call → Bool
  | .allocating _ | .registering .. | .subscribed .. => true
  | .searching .. | .unsubscribed .. => false

/-- Where to look for a handle that is not in a registry, or that it was in none. -/
def missed (s : Subscription) : Registry → Call
  | .connection => .searching .transfer s
  | .transfer => .unsubscribed s false

/-- The next step of a call; none if it is over. -/
def step (l : Listeners) : Call → Option (Call × Listeners)
  | .allocating r =>
    let (s, l) := l.allocate
    some (.registering r s, l)
  | .registering r s => some (.subscribed r s, l.register r s)
  | .searching r s =>
    let (found, l) := l.remove r s
    some (if found then .unsubscribed s true else missed s r, l)
  | .subscribed .. | .unsubscribed .. => none

/-- The handle that a call to subscribe has taken. -/
def issued? : Call → Option Subscription
  | .registering _ s | .subscribed _ s => some s
  | _ => none

/-- The handle that a call has put in a registry. -/
def made? : Call → Option Subscription
  | .subscribed _ s => some s
  | _ => none

/-- The handle that a call has taken out of a registry. -/
def removed? : Call → Option Subscription
  | .unsubscribed s true => some s
  | _ => none

/-- What the steps of a call to unsubscribe have done to the listeners so far: nothing, unless its
last step has taken out the handle. -/
def Tells (steps : List (Listeners × Listeners)) : Call → Prop
  | .searching _ _ | .unsubscribed _ false => ∀ p ∈ steps, p.2 = p.1
  | .unsubscribed s true => ∃ earlier l l', steps = earlier ++ [(l, l')] ∧
      (∀ p ∈ earlier, p.2 = p.1) ∧ Removes s l l'
  | .allocating _ | .registering .. | .subscribed .. => True

end Call

/-- The listeners together with every call that was ever begun, the earliest first. -/
structure Traffic where
  listeners : Listeners
  calls : List Call
  deriving DecidableEq

inductive Move where
  | subscribe (r : Registry)
  | unsubscribe (s : Subscription)
  /-- The call of this number takes a step. -/
  | advance (n : ℕ)
  deriving DecidableEq

namespace Traffic

def start : Traffic := ⟨.empty, []⟩

/-- What a move leads to; none if the call is not there or is over. -/
def act (t : Traffic) : Move → Option Traffic
  | .subscribe r => some { t with calls := t.calls ++ [.allocating r] }
  | .unsubscribe s => some { t with calls := t.calls ++ [.searching .connection s] }
  | .advance n =>
    t.calls[n]?.bind fun call =>
      (call.step t.listeners).map fun (call, listeners) => ⟨listeners, t.calls.set n call⟩

def run : Traffic → List Move → Option Traffic
  | t, [] => some t
  | t, m :: rest => (t.act m).bind fun next => run next rest

/-- The listeners before and after each step that a call takes in a run. -/
def steps (n : ℕ) : Traffic → List Move → List (Listeners × Listeners)
  | _, [] => []
  | t, m :: rest =>
    ((t.act m).map fun next =>
      (if m = .advance n then [(t.listeners, next.listeners)] else []) ++ steps n next rest).getD []

def issued (t : Traffic) : List Subscription := t.calls.filterMap Call.issued?

def made (t : Traffic) : List Subscription := t.calls.filterMap Call.made?

def removed (t : Traffic) : List Subscription := t.calls.filterMap Call.removed?

end Traffic

/-! ## One step -/

/-- All handles in the registries. -/
def subscriptions (l : Listeners) : List Subscription := l.connection ++ l.transfer

@[simp] theorem length_subscriptions (l : Listeners) : l.subscriptions.length = l.count := by
  simp [subscriptions, count]

variable {l l' : Listeners} {r : Registry} {s : Subscription}

theorem next_set (l : Listeners) (r : Registry) (subscriptions : List Subscription) :
    (l.set r subscriptions).next = l.next := by
  cases r <;> rfl

theorem perm_subscriptions_set {xs : List Subscription} (h : (l.of r).Perm (s :: xs)) :
    l.subscriptions.Perm (s :: (l.set r xs).subscriptions) := by
  cases r with
  | connection => exact h.append_right l.transfer
  | transfer => exact (h.append_left l.connection).trans List.perm_middle

theorem perm_subscriptions_register (l : Listeners) (r : Registry) (s : Subscription) :
    (l.register r s).subscriptions.Perm (s :: l.subscriptions) := by
  cases r with
  | connection => exact (List.perm_append_singleton s l.connection).append_right l.transfer
  | transfer =>
    rw [subscriptions, register]
    refine ((List.perm_append_singleton s l.transfer).append_left l.connection).trans ?_
    exact List.perm_middle

theorem remove_eq_true (h : l.remove r s = (true, l')) :
    s ∈ l.of r ∧ l' = l.set r ((l.of r).erase s) := by
  unfold remove at h
  split at h
  · next hmem => exact ⟨hmem, (Prod.mk.inj h).2.symm⟩
  · simp at h

theorem remove_eq_false (h : l.remove r s = (false, l')) : s ∉ l.of r ∧ l' = l := by
  unfold remove at h
  split at h
  · simp at h
  · next hmem => exact ⟨hmem, (Prod.mk.inj h).2.symm⟩

theorem perm_subscriptions_remove (h : l.remove r s = (true, l')) :
    l.subscriptions.Perm (s :: l'.subscriptions) := by
  obtain ⟨hmem, rfl⟩ := remove_eq_true h
  exact perm_subscriptions_set (List.perm_cons_erase hmem)

theorem removes_of_remove (h : l.remove r s = (true, l')) : Removes s l l' := by
  obtain ⟨hmem, rfl⟩ := remove_eq_true h
  obtain ⟨before, after, -, hof, herase⟩ := List.exists_erase_eq hmem
  refine ⟨next_set l r _, r, before, after, hof, ?_, fun q hq => of_set_ne l hq _⟩
  rw [of_set_same, herase]

/-- What a step of a call makes of it and of the listeners. -/
inductive Call.Stepped (l : Listeners) : Call → Call → Listeners → Prop
  | allocate (r : Registry) :
      Stepped l (.allocating r) (.registering r ⟨l.next⟩) { l with next := l.next + 1 }
  | register (r : Registry) (s : Subscription) :
      Stepped l (.registering r s) (.subscribed r s) (l.register r s)
  | remove {r : Registry} {s : Subscription} {l' : Listeners} (h : l.remove r s = (true, l')) :
      Stepped l (.searching r s) (.unsubscribed s true) l'
  | miss (r : Registry) (s : Subscription) : Stepped l (.searching r s) (missed s r) l

theorem Call.stepped {call call' : Call} (h : call.step l = some (call', l')) :
    call.Stepped l call' l' := by
  cases call with
  | allocating r =>
    obtain ⟨rfl, rfl⟩ := Prod.mk.inj (Option.some.inj h)
    exact .allocate r
  | registering r s =>
    obtain ⟨rfl, rfl⟩ := Prod.mk.inj (Option.some.inj h)
    exact .register r s
  | searching r s =>
    rcases hremove : l.remove r s with ⟨found, l''⟩
    simp only [step, hremove] at h
    obtain ⟨rfl, rfl⟩ := Prod.mk.inj (Option.some.inj h)
    cases found with
    | true => exact .remove hremove
    | false =>
      obtain ⟨-, rfl⟩ := remove_eq_false hremove
      exact .miss r s
  | subscribed r s => simp [step] at h
  | unsubscribed s found => simp [step] at h

namespace Traffic

variable {t t' : Traffic} {n : ℕ}

/-- What a move makes of the calls and of the listeners. -/
inductive Acted (t : Traffic) : Move → Traffic → Prop
  | subscribe (r : Registry) :
      Acted t (.subscribe r) { t with calls := t.calls ++ [.allocating r] }
  | unsubscribe (s : Subscription) :
      Acted t (.unsubscribe s) { t with calls := t.calls ++ [.searching .connection s] }
  | advance {n : ℕ} {call call' : Call} {l' : Listeners} (hcall : t.calls[n]? = some call)
      (hstep : call.Stepped t.listeners call' l') :
      Acted t (.advance n) ⟨l', t.calls.set n call'⟩

theorem acted {m : Move} (h : t.act m = some t') : t.Acted m t' := by
  cases m with
  | subscribe r =>
    obtain rfl := Option.some.inj h
    exact .subscribe r
  | unsubscribe s =>
    obtain rfl := Option.some.inj h
    exact .unsubscribe s
  | advance n =>
    obtain ⟨call, hcall, hmap⟩ := Option.bind_eq_some_iff.mp h
    obtain ⟨⟨call', l'⟩, hstep, rfl⟩ := Option.map_eq_some_iff.mp hmap
    exact .advance hcall (Call.stepped hstep)

/-! ## The books -/

/-- What every call but one contributes stays the same when that one takes a step. -/
theorem perm_filterMap_set {calls : List Call} {call : Call} (hcall : calls[n]? = some call)
    (call' : Call) (f : Call → Option Subscription) :
    ((f call).toList ++ (calls.set n call').filterMap f).Perm
      ((f call').toList ++ calls.filterMap f) := by
  obtain ⟨hn, rfl⟩ := List.getElem?_eq_some_iff.mp hcall
  have hsplit (c : Call) : ((calls.set n c).filterMap f).Perm
      ((f c).toList ++ ((calls.take n).filterMap f ++ (calls.drop (n + 1)).filterMap f)) := by
    rw [List.set_eq_take_append_cons_drop, if_pos hn, List.filterMap_append, List.filterMap_cons]
    cases f c with
    | none => exact List.Perm.refl _
    | some s => exact List.perm_middle
  have hcalls := hsplit calls[n]
  rw [List.set_getElem_self] at hcalls
  refine ((hsplit call').append_left _).trans (List.Perm.trans ?_ (hcalls.symm.append_left _))
  exact List.perm_append_comm_assoc _ _ _

/-- The handles taken are those below the next, and the handles registered are those that are still
there and those that calls have taken out. -/
structure Accounted (t : Traffic) : Prop where
  issued_perm : t.issued.Perm ((List.range t.listeners.next).map Subscription.mk)
  made_perm : t.made.Perm (t.removed ++ t.listeners.subscriptions)

theorem accounted_start : start.Accounted := ⟨.refl _, .refl _⟩

theorem Accounted.advance {call call' : Call} {l' : Listeners} (h : t.Accounted)
    (hcall : t.calls[n]? = some call) (hstep : call.Stepped t.listeners call' l') :
    (Traffic.mk l' (t.calls.set n call')).Accounted := by
  have hissued := perm_filterMap_set hcall call' Call.issued?
  have hmade := perm_filterMap_set hcall call' Call.made?
  have hremoved := perm_filterMap_set hcall call' Call.removed?
  cases hstep with
  | allocate r =>
    refine ⟨hissued.trans ?_, hmade.trans (h.made_perm.trans ?_)⟩
    · rw [List.range_succ, List.map_append]
      exact (h.issued_perm.cons _).trans (List.perm_append_singleton _ _).symm
    · exact hremoved.symm.append_right _
  | register r s =>
    have hsame := (List.perm_cons s).mp hissued
    refine ⟨hsame.trans ?_, hmade.trans ((h.made_perm.cons s).trans ?_)⟩
    · have hnext : (t.listeners.register r s).next = t.listeners.next := next_set ..
      rw [hnext]
      exact h.issued_perm
    · have hregister := perm_subscriptions_register t.listeners r s
      exact List.perm_middle.symm.trans (hremoved.symm.append hregister.symm)
  | remove hremove =>
    refine ⟨hissued.trans ?_, hmade.trans (h.made_perm.trans ?_)⟩
    · rw [(removes_of_remove hremove).next_eq]
      exact h.issued_perm
    · refine ((perm_subscriptions_remove hremove).append_left _).trans ?_
      exact List.perm_middle.trans (hremoved.symm.append_right _)
  | miss r s =>
    have hnone : Call.issued? (Call.missed s r) = none ∧ Call.made? (Call.missed s r) = none ∧
        Call.removed? (Call.missed s r) = none := by
      cases r <;> exact ⟨rfl, rfl, rfl⟩
    obtain ⟨hissued?, hmade?, hremoved?⟩ := hnone
    rw [hissued?] at hissued
    rw [hmade?] at hmade
    rw [hremoved?] at hremoved
    exact ⟨hissued.trans h.issued_perm,
      hmade.trans (h.made_perm.trans (hremoved.symm.append_right _))⟩

/-- A call that has just begun has no handle. -/
theorem Accounted.begin {call : Call} (h : t.Accounted) (hissued : call.issued? = none)
    (hmade : call.made? = none) (hremoved : call.removed? = none) :
    (Traffic.mk t.listeners (t.calls ++ [call])).Accounted := by
  have hsame {f : Call → Option Subscription} (hf : f call = none) :
      (t.calls ++ [call]).filterMap f = t.calls.filterMap f := by
    rw [List.filterMap_append, List.filterMap_cons, hf, List.filterMap_nil, List.append_nil]
  constructor
  · rw [issued, hsame hissued]
    exact h.issued_perm
  · rw [made, removed, hsame hmade, hsame hremoved]
    exact h.made_perm

theorem Accounted.act {m : Move} (h : t.Accounted) (hact : t.act m = some t') : t'.Accounted := by
  cases acted hact with
  | subscribe r => exact h.begin rfl rfl rfl
  | unsubscribe s => exact h.begin rfl rfl rfl
  | advance hcall hstep => exact h.advance hcall hstep

theorem Accounted.run {moves : List Move} (h : t.Accounted) (hrun : run t moves = some t') :
    t'.Accounted := by
  induction moves generalizing t with
  | nil =>
    obtain rfl := Option.some.inj hrun
    exact h
  | cons m moves ih =>
    obtain ⟨next, hact, hrest⟩ := Option.bind_eq_some_iff.mp hrun
    exact ih (h.act hact) hrest

theorem made_sublist_issued (t : Traffic) : List.Sublist t.made t.issued := by
  unfold made issued
  induction t.calls with
  | nil => exact .slnil
  | cons call calls ih =>
    cases call with
    | registering r s => exact ih.cons s
    | subscribed r s => exact ih.cons_cons s
    | _ => exact ih

theorem Accounted.issued_nodup (h : t.Accounted) : t.issued.Nodup := by
  rw [h.issued_perm.nodup_iff]
  refine List.nodup_range.map fun a b hab => ?_
  simpa using hab

theorem Accounted.registered_nodup (h : t.Accounted) :
    (t.removed ++ t.listeners.subscriptions).Nodup :=
  h.made_perm.nodup_iff.mp (h.issued_nodup.sublist t.made_sublist_issued)

theorem count_unsubscribed (t : Traffic) (s : Subscription) :
    t.calls.count (.unsubscribed s true) = t.removed.count s := by
  unfold removed
  induction t.calls with
  | nil => rfl
  | cons call calls ih =>
    rw [List.filterMap_cons, List.count_cons, ih]
    cases call with
    | unsubscribed s' found => cases found <;> simp [Call.removed?, List.count_cons]
    | _ => simp [Call.removed?]

/-! ## The steps of one call -/

/-- A call has done to the listeners what its answer says, if it has begun at all. -/
structure Told (n : ℕ) (t : Traffic) (past : List (Listeners × Listeners)) : Prop where
  eq_nil : t.calls.length ≤ n → past = []
  tells : ∀ call, t.calls[n]? = some call → call.Tells past

theorem Told.begin {past : List (Listeners × Listeners)} {call : Call} (h : t.Told n past)
    (hcall : call.Tells []) : (Traffic.mk t.listeners (t.calls ++ [call])).Told n past := by
  constructor
  · intro hle
    refine h.eq_nil (le_trans ?_ hle)
    simp
  · intro call' hcall'
    rcases Nat.lt_trichotomy n t.calls.length with hlt | rfl | hgt
    · rw [List.getElem?_append_left hlt] at hcall'
      exact h.tells call' hcall'
    · obtain rfl : call = call' := by simpa using hcall'
      rw [h.eq_nil le_rfl]
      exact hcall
    · simp [hgt] at hcall'

theorem Told.advance {past : List (Listeners × Listeners)} {call call' : Call} {l' : Listeners}
    (h : t.Told n past) (hcall : t.calls[n]? = some call)
    (hstep : call.Stepped t.listeners call' l') :
    (Traffic.mk l' (t.calls.set n call')).Told n (past ++ [(t.listeners, l')]) := by
  have hn : n < t.calls.length := (List.getElem?_eq_some_iff.mp hcall).1
  have hpast := h.tells call hcall
  have htells : call'.Tells (past ++ [(t.listeners, l')]) := by
    cases hstep with
    | allocate r => trivial
    | register r s => trivial
    | remove hremove => exact ⟨past, t.listeners, l', rfl, hpast, removes_of_remove hremove⟩
    | miss r s =>
      have hsame : ∀ p ∈ past ++ [(t.listeners, t.listeners)], p.2 = p.1 := by
        intro p hp
        rcases List.mem_append.mp hp with hp | hp
        · exact hpast p hp
        · obtain rfl := List.mem_singleton.mp hp
          rfl
      cases r <;> exact hsame
  constructor
  · intro hle
    rw [List.length_set] at hle
    exact absurd hle (Nat.not_le_of_lt hn)
  · intro call'' hcall''
    obtain rfl : call' = call'' := by simpa [hn] using hcall''
    exact htells

theorem Told.advance_ne {past : List (Listeners × Listeners)} {k : ℕ} (h : t.Told n past)
    (hne : k ≠ n) (call' : Call) (l' : Listeners) :
    (Traffic.mk l' (t.calls.set k call')).Told n past := by
  constructor
  · intro hle
    rw [List.length_set] at hle
    exact h.eq_nil hle
  · intro call hcall
    rw [List.getElem?_set_ne hne] at hcall
    exact h.tells call hcall

theorem Told.act {past : List (Listeners × Listeners)} {m : Move} (h : t.Told n past)
    (hact : t.act m = some t') :
    t'.Told n (past ++ if m = .advance n then [(t.listeners, t'.listeners)] else []) := by
  cases acted hact with
  | subscribe r =>
    have htells : (Call.allocating r).Tells [] := trivial
    simpa using h.begin htells
  | unsubscribe s =>
    have htells : (Call.searching .connection s).Tells [] := by simp [Call.Tells]
    simpa using h.begin htells
  | @advance k call call' l' hcall hstep =>
    by_cases hk : k = n
    · subst hk
      simpa using h.advance hcall hstep
    · simpa [hk] using h.advance_ne hk call' l'

theorem Told.run {past : List (Listeners × Listeners)} {moves : List Move} (h : t.Told n past)
    (hrun : run t moves = some t') : t'.Told n (past ++ steps n t moves) := by
  induction moves generalizing t past with
  | nil =>
    obtain rfl := Option.some.inj hrun
    simpa [steps] using h
  | cons m moves ih =>
    obtain ⟨next, hact, hrest⟩ := Option.bind_eq_some_iff.mp hrun
    have hlast := ih (h.act hact) hrest
    rw [List.append_assoc] at hlast
    simpa [steps, hact] using hlast

/-! ## Calls that nobody interrupts -/

/-- A call to subscribe that takes its steps at once subscribes. -/
theorem run_subscribe (t : Traffic) (r : Registry) :
    run t [.subscribe r, .advance t.calls.length, .advance t.calls.length] =
      some ⟨(t.listeners.subscribe r).2,
        t.calls ++ [.subscribed r (t.listeners.subscribe r).1]⟩ := by
  simp [run, act, Call.step, allocate, Listeners.subscribe]

/-- A call to unsubscribe that takes its steps at once unsubscribes. -/
theorem exists_run_unsubscribe (t : Traffic) (s : Subscription) :
    ∃ k, run t (.unsubscribe s :: List.replicate k (.advance t.calls.length)) =
      some ⟨(t.listeners.unsubscribe s).2,
        t.calls ++ [.unsubscribed s (t.listeners.unsubscribe s).1]⟩ := by
  rcases hconnection : t.listeners.remove .connection s with ⟨found, l⟩
  cases found with
  | true =>
    refine ⟨1, ?_⟩
    simp [run, act, Call.step, Listeners.unsubscribe, hconnection]
  | false =>
    refine ⟨2, ?_⟩
    rcases htransfer : l.remove .transfer s with ⟨found, l'⟩
    cases found <;>
      simp [run, act, Call.step, Call.missed, Listeners.unsubscribe, hconnection, htransfer]

/-! ## The whole run -/

/-- What every interleaving of calls keeps to: no two calls take the same handle, no handle is
registered twice, at most one call takes out a handle, and then just this one; and when no call is
under way, what is registered is what was subscribed and not unsubscribed. -/
structure Kept (moves : List Move) (t : Traffic) : Prop where
  issued_nodup : t.issued.Nodup
  registered_nodup : (t.listeners.connection ++ t.listeners.transfer).Nodup
  count_unsubscribed_le : ∀ s, t.calls.count (.unsubscribed s true) ≤ 1
  removed : ∀ n s, t.calls[n]? = some (.unsubscribed s true) →
    ∃ earlier l l', steps n start moves = earlier ++ [(l, l')] ∧ (∀ p ∈ earlier, p.2 = p.1) ∧
      Removes s l l'
  unchanged : ∀ n s, t.calls[n]? = some (.unsubscribed s false) →
    ∀ p ∈ steps n start moves, p.2 = p.1
  count_eq : (∀ call ∈ t.calls, call.isOver = true) →
    t.listeners.count + t.calls.countP (fun call => call.removed?.isSome) =
      t.calls.countP Call.subscribes

theorem handles_kept {moves : List Move} {t : Traffic} (h : run start moves = some t) :
    t.Kept moves := by
  have haccounted := accounted_start.run h
  have htold : ∀ n, t.Told n (steps n start moves) := by
    intro n
    have hstart : start.Told n [] := ⟨fun _ => rfl, by simp [start]⟩
    simpa using hstart.run h
  obtain ⟨hremoved, hregistered, -⟩ := List.nodup_append.mp haccounted.registered_nodup
  refine ⟨haccounted.issued_nodup, hregistered, ?_, ?_, ?_, ?_⟩
  · intro s
    rw [count_unsubscribed]
    exact List.nodup_iff_count_le_one.mp hremoved s
  · intro n s hcall
    exact (htold n).tells _ hcall
  · intro n s hcall
    exact (htold n).tells _ hcall
  · intro hover
    -- Every call to subscribe that is over has registered its handle.
    have hmade : t.calls.countP Call.subscribes = t.made.length := by
      rw [made, List.length_filterMap_eq_countP]
      refine List.countP_congr fun call hmem => ?_
      have hcall := hover call hmem
      cases call <;> simp_all [Call.subscribes, Call.isOver, Call.made?]
    have hlength := haccounted.made_perm.length_eq
    rw [List.length_append, length_subscriptions] at hlength
    calc t.listeners.count + t.calls.countP (fun call => call.removed?.isSome)
      _ = t.listeners.count + t.removed.length := by
        rw [Traffic.removed, List.length_filterMap_eq_countP]
      _ = t.made.length := by rw [hlength, Nat.add_comm]
      _ = t.calls.countP Call.subscribes := hmade.symm

/-- Two listeners are registered in the other order than their handles were taken in, and then two
calls look for the same handle at the same time. -/
def crossing : List Move :=
  [.subscribe .transfer, .subscribe .transfer, .advance 0, .advance 1, .advance 1, .advance 0,
    .unsubscribe ⟨1⟩, .unsubscribe ⟨1⟩, .advance 2, .advance 3, .advance 3, .advance 2]

def crossed : Traffic where
  listeners := ⟨2, [], [⟨0⟩]⟩
  calls := [.subscribed .transfer ⟨0⟩, .subscribed .transfer ⟨1⟩, .unsubscribed ⟨1⟩ false,
    .unsubscribed ⟨1⟩ true]

theorem handles_kept_crossed : run start crossing = some crossed ∧ crossed.Kept crossing :=
  ⟨rfl, handles_kept rfl⟩

end Traffic

end FaxClient.Listeners
