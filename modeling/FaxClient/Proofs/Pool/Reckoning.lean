import FaxClient.Proofs.Pool.Observation
import FaxClient.Proofs.Pool.Provision

/-!
# The tallies of start, stop and restart

A call that starts, stops or restarts a pool answers with a tally.  Whatever others do meanwhile,
the tally counts what the call itself has done, and counts it once: each member that its first
section took out, by how it was closed, each member that a stop cut off, and each creation that it
tried.  What it had to do is fixed in its sections: a stop has to do with all the members known in
its section, a start with as many as are missing in its section, and a restart with the idle ones of
its first section and with those missing in its second.

The creations that it counts as successes are the members that its own steps put into the pool.
-/

namespace FaxClient.Pool

/-! ## What a call has done -/

/-- How a member that a call took out was closed. -/
inductive Parting where
  /-- Its session was not open any more. -/
  | lost
  | answered (r : Except ExchangeError Unit)
  | late

def Parting.succeeded : Parting → Bool
  | .lost => true
  | .answered r => r.isOk
  | .late => false

namespace Trial

def added? : Trial → Option MemberId
  | .added id => some id
  | .full | .failed _ | .unwanted => none

def succeeded (outcome : Trial) : Bool := outcome.added?.isSome

theorem length_filterMap_added (trials : List Trial) :
    (trials.filterMap added?).length = trials.countP succeeded :=
  List.length_filterMap_eq_countP

end Trial

/-- What a call for all the members of a pool does: its sections, with the ledgers that they found,
and in between the members that it closes and the creations that it tries. -/
inductive Deed where
  | stopped (l : Ledger)
  | reopened (l : Ledger)
  | flushed (l : Ledger)
  | sized (l : Ledger)
  | closed (c : Member × Parting)
  | tried (outcome : Trial)

/-- The member that was added. -/
def Deed.added? : Deed → Option MemberId
  | .tried outcome => outcome.added?
  | _ => none

def Errand.closes : Errand → Bool
  | .drain .. | .renew .. => true
  | _ => false

/-- What a call for all the members does by the next step of its task. -/
def Task.deed? (s : Settings) (isOpen : Line → Bool) (l : Ledger) (t : Task) (signal : Signal) :
    Option Deed :=
  match t.doing, t.errand with
  | .ready, .stop => some (.stopped l)
  | .ready, .start => some (.reopened l)
  | .ready, .restart => some (.flushed l)
  | .ready, .renew [] _ => some (.sized l)
  | .ready, .fill (_ + 1) _ => if l.atCapacity s then some (.tried .full) else none
  | .creating (.ended (.error e)), .fill .. => some (.tried (.failed e))
  | .creating (.ended (.ok m)), .fill .. =>
    some (.tried (if l.stopped then .unwanted else .added m.id))
  | .discarding m, errand =>
    if errand.closes && !isOpen m.line then some (.closed (m, .lost)) else none
  | .closing m _, errand =>
    if errand.closes then
      match signal with
      | .closed r => some (.closed (m, .answered r))
      | .late => some (.closed (m, .late))
      | _ => none
    else none
  | _, _ => none

namespace Ledger

/-- The members that are idle now and were not known before. -/
def newcomers (l l' : Ledger) : List MemberId :=
  (l'.idle.map (·.id)).filter (· ∉ l.known)

theorem newcomers_eq_nil {l l' : Ledger} (h : ∀ id ∈ l'.idle.map (·.id), id ∈ l.known) :
    l.newcomers l' = [] :=
  List.filter_eq_nil_iff.mpr fun id hid => by simpa using h id hid

end Ledger

/-! ## Tallies -/

/-- A tally once these successes and failures are counted. -/
def Tally.plus (t : Tally) (results : List Bool) : Tally := results.foldl Tally.count t

theorem Tally.plus_concat (t : Tally) (results : List Bool) (success : Bool) :
    t.plus (results ++ [success]) = (t.plus results).count success := by
  simp [plus]

theorem Tally.plus_eq (t : Tally) (results : List Bool) :
    t.plus results = ⟨t.succeeded + results.countP id, t.failed + results.countP not⟩ := by
  induction results generalizing t with
  | nil => rfl
  | cons success results ih =>
    have hcons : t.plus (success :: results) = (t.count success).plus results := rfl
    rw [hcons, ih]
    cases success <;> simp [count, Nat.add_right_comm, Nat.add_assoc]

/-- What a call answers is a tally of what it has done and of the members that it has put into the
pool. -/
inductive Tallied (s : Settings) : Call → List Deed → List MemberId → Tally → Prop
  | stop {l : Ledger} {closings : List (Member × Parting)} {tally : Tally}
      (hidle : closings.map Prod.fst = l.idle)
      (hsucceeded : tally.succeeded =
        l.working.length + closings.countP fun c => c.2.succeeded)
      (hfailed : tally.failed = closings.countP fun c => !c.2.succeeded)
      (htotal : tally.succeeded + tally.failed = l.known.length) :
      Tallied s .stop (.stopped l :: closings.map .closed) [] tally
  | start {l : Ledger} {trials : List Trial} {added : List MemberId} {tally : Tally}
      (hadded : added = trials.filterMap Trial.added?)
      (hsucceeded : tally.succeeded = added.length)
      (hfailed : tally.failed = trials.countP fun outcome => !outcome.succeeded)
      (htotal : tally.succeeded + tally.failed = s.minSize - l.live) :
      Tallied s .start (.reopened l :: trials.map .tried) added tally
  | restart {l l₂ : Ledger} {closings : List (Member × Parting)} {trials : List Trial}
      {added : List MemberId} {tally : Tally} (hidle : closings.map Prod.fst = l.idle)
      (hadded : added = trials.filterMap Trial.added?)
      (hsucceeded : tally.succeeded =
        closings.countP (fun c => c.2.succeeded) + added.length)
      (hfailed : tally.failed = closings.countP (fun c => !c.2.succeeded) +
        trials.countP fun outcome => !outcome.succeeded)
      (htotal : tally.succeeded + tally.failed = l.idle.length + (s.minSize - l₂.live)) :
      Tallied s .restart
        (.flushed l :: closings.map .closed ++ .sized l₂ :: trials.map .tried) added tally

theorem filterMap_closed (closings : List (Member × Parting)) :
    (closings.map Deed.closed).filterMap Deed.added? = [] := by
  simp [List.filterMap_map, Function.comp_def, Deed.added?]

theorem filterMap_tried (trials : List Trial) :
    (trials.map Deed.tried).filterMap Deed.added? = trials.filterMap Trial.added? := by
  rw [List.filterMap_map]
  rfl

theorem countP_add_countP_not {α : Type} (p : α → Bool) (xs : List α) :
    xs.countP p + xs.countP (fun x => !p x) = xs.length := by
  have hlength := List.length_eq_countP_add_countP (l := xs) p
  rw [hlength]
  congr 2
  funext x
  simp

theorem tallied_stop {s : Settings} {l : Ledger} {closings : List (Member × Parting)}
    (hidle : closings.map Prod.fst = l.idle)
    (hknown : l.known.length = l.idle.length + l.working.length) :
    Tallied s .stop (.stopped l :: closings.map .closed) []
      ((⟨l.working.length, 0⟩ : Tally).plus (closings.map (·.2.succeeded))) := by
  have hlength : closings.length = l.idle.length := by rw [← hidle, List.length_map]
  have hsum := countP_add_countP_not (fun c : Member × Parting => c.2.succeeded) closings
  rw [Tally.plus_eq, List.countP_map, List.countP_map]
  refine .stop hidle rfl (Nat.zero_add _) ?_
  simp only [Function.comp_def, id_eq]
  omega

theorem tallied_start {s : Settings} {l : Ledger} {trials : List Trial}
    (hlength : trials.length = l.missing s) :
    Tallied s .start (.reopened l :: trials.map .tried) (trials.filterMap Trial.added?)
      (Tally.zero.plus (trials.map Trial.succeeded)) := by
  have hsum := countP_add_countP_not Trial.succeeded trials
  rw [Tally.plus_eq, List.countP_map, List.countP_map]
  refine .start rfl ?_ (Nat.zero_add _) ?_
  · rw [Trial.length_filterMap_added]
    exact Nat.zero_add _
  · simp only [Tally.zero, Nat.zero_add]
    exact hsum.trans hlength

theorem tallied_restart {s : Settings} {l l₂ : Ledger} {closings : List (Member × Parting)}
    {trials : List Trial} (hidle : closings.map Prod.fst = l.idle)
    (hlength : trials.length = l₂.missing s) :
    Tallied s .restart (.flushed l :: closings.map .closed ++ .sized l₂ :: trials.map .tried)
      (trials.filterMap Trial.added?) ((Tally.zero.plus (closings.map (·.2.succeeded))).plus
        (trials.map Trial.succeeded)) := by
  have hclosings : closings.length = l.idle.length := by rw [← hidle, List.length_map]
  have hsum := countP_add_countP_not (fun c : Member × Parting => c.2.succeeded) closings
  have hsum' := countP_add_countP_not (fun outcome : Trial => outcome.succeeded) trials
  have hmissing : l₂.missing s = s.minSize - l₂.live := rfl
  rw [Tally.plus_eq, Tally.plus_eq, List.countP_map, List.countP_map, List.countP_map,
    List.countP_map]
  refine .restart hidle rfl ?_ ?_ ?_
  · rw [Trial.length_filterMap_added]
    simp only [Tally.zero, Nat.zero_add]
    rfl
  · simp only [Tally.zero, Nat.zero_add]
    rfl
  · simp only [Tally.zero, Nat.zero_add, Function.comp_def, id_eq]
    omega

/-! ## A call under way -/

/-- An errand to close members, in a stop or in a restart. -/
def Errand.emptying (restart : Bool) (left : List Member) (tally : Tally) : Errand :=
  if restart then .renew left tally else .drain left tally

namespace Task

/-- A task that closes members, and has closed these so far. -/
inductive Empties (restart : Bool) (idle : List Member) (tally : Tally) :
    List (Member × Parting) → Task → Prop
  | ready {closings : List (Member × Parting)} {left : List Member}
      (h : closings.map Prod.fst ++ left = idle) : Empties restart idle tally closings
        ⟨.emptying restart left (tally.plus (closings.map (·.2.succeeded))), .ready⟩
  | closing {closings : List (Member × Parting)} {left : List Member} {m : Member} {doing : Doing}
      (hdoing : doing = .discarding m ∨ ∃ limit, doing = .closing m limit)
      (h : closings.map Prod.fst ++ m :: left = idle) : Empties restart idle tally closings
        ⟨.emptying restart left (tally.plus (closings.map (·.2.succeeded))), doing⟩

/-- A task that tries so many creations, and has tried these so far. -/
inductive Fills (n : ℕ) (tally : Tally) : List Trial → Task → Prop
  | ready {trials : List Trial} {left : ℕ} (h : trials.length + left = n) :
      Fills n tally trials ⟨.fill left (tally.plus (trials.map Trial.succeeded)), .ready⟩
  | creating {trials : List Trial} {left : ℕ} {c : Creation} (h : trials.length + 1 + left = n) :
      Fills n tally trials ⟨.fill left (tally.plus (trials.map Trial.succeeded)), .creating c⟩
  /-- The member that it has created is not wanted any more. -/
  | unwanted {trials : List Trial} {left : ℕ} {m : Member} {doing : Doing}
      (hdoing : doing = .discarding m ∨ ∃ limit, doing = .closing m limit)
      (h : trials.length + 1 + left = n) : Fills n tally (trials ++ [.unwanted])
        ⟨.fill left (tally.plus (trials.map Trial.succeeded)), doing⟩

/-- What a call has done, and what its task is doing. -/
inductive Reckons (s : Settings) : Call → List Deed → Task → Prop
  | stop : Reckons s .stop [] ⟨.stop, .ready⟩
  | draining {l : Ledger} {closings : List (Member × Parting)} {t : Task}
      (hknown : l.known.length = l.idle.length + l.working.length)
      (h : t.Empties false l.idle ⟨l.working.length, 0⟩ closings) :
      Reckons s .stop (.stopped l :: closings.map .closed) t
  | start : Reckons s .start [] ⟨.start, .ready⟩
  | filling {l : Ledger} {trials : List Trial} {t : Task} (h : t.Fills (l.missing s) .zero trials) :
      Reckons s .start (.reopened l :: trials.map .tried) t
  | restart : Reckons s .restart [] ⟨.restart, .ready⟩
  | renewing {l : Ledger} {closings : List (Member × Parting)} {t : Task}
      (h : t.Empties true l.idle .zero closings) :
      Reckons s .restart (.flushed l :: closings.map .closed) t
  | refilling {l l₂ : Ledger} {closings : List (Member × Parting)} {trials : List Trial} {t : Task}
      (hidle : closings.map Prod.fst = l.idle)
      (h : t.Fills (l₂.missing s) (Tally.zero.plus (closings.map (·.2.succeeded))) trials) :
      Reckons s .restart (.flushed l :: closings.map .closed ++ .sized l₂ :: trials.map .tried) t

variable {s : Settings} {now : Time} {isOpen : Line → Bool} {l : Ledger} {t : Task}
  {signal : Signal} {st : Step} {call : Call} {deeds : List Deed} {restart : Bool}
  {idle : List Member} {tally : Tally} {closings : List (Member × Parting)} {n : ℕ}
  {trials : List Trial}

/-! ### One step -/

theorem discarded_emptying (left : List Member) (tally : Tally) (success : Bool) :
    discarded s now l (.emptying restart left tally) success =
      continuing l (.emptying restart left (tally.count success)) .ready .none := by
  cases restart <;> rfl

theorem closes_emptying (left : List Member) (tally : Tally) :
    (Errand.emptying restart left tally).closes = true := by
  cases restart <;> rfl

/-- A task that closes members goes on with the next one, or has closed them all. -/
theorem Empties.step (h : t.Empties restart idle tally closings)
    (hstep : t.step s now isOpen l signal = some st) :
    (closings.map Prod.fst = idle ∧
        t = ⟨.emptying restart [] (tally.plus (closings.map (·.2.succeeded))), .ready⟩) ∨
      ∃ next more, st.progress = .running next ∧
        (t.deed? s isOpen l signal).toList = more.map .closed ∧
          next.Empties restart idle tally (closings ++ more) := by
  cases h with
  | @ready left h =>
    cases left with
    | nil => exact Or.inl ⟨by simpa using h, rfl⟩
    | cons m left =>
      obtain rfl : signal = .go := by
        cases signal with
        | go => rfl
        | _ => simp [Task.step] at hstep
      obtain rfl := Option.some.inj hstep
      refine Or.inr ⟨⟨.emptying restart left (tally.plus (closings.map (·.2.succeeded))),
        .discarding m⟩, [], ?_, ?_, ?_⟩
      · cases restart <;> rfl
      · cases restart <;> rfl
      · rw [List.append_nil]
        exact .closing (Or.inl rfl) h
  | @closing left m doing hdoing h =>
    have hready : ∀ parting : Parting, Empties restart idle tally (closings ++ [(m, parting)])
        ⟨.emptying restart left
          ((tally.plus (closings.map (·.2.succeeded))).count parting.succeeded), .ready⟩ := by
      intro parting
      have hready : Empties restart idle tally (closings ++ [(m, parting)]) ⟨.emptying restart left
          (tally.plus ((closings ++ [(m, parting)]).map (·.2.succeeded))), .ready⟩ :=
        .ready (by simpa using h)
      rwa [List.map_append, List.map_cons, List.map_nil, Tally.plus_concat] at hready
    right
    rcases hdoing with rfl | ⟨limit, rfl⟩
    · obtain rfl : signal = .go := by
        cases signal with
        | go => rfl
        | _ => simp [Task.step] at hstep
      simp only [Task.step, discarded_emptying] at hstep
      split at hstep
      · next hopen =>
        obtain rfl := Option.some.inj hstep
        refine ⟨_, [], rfl, ?_, ?_⟩
        · simp [deed?, hopen]
        · rw [List.append_nil]
          exact .closing (Or.inr ⟨_, rfl⟩) h
      · next hopen =>
        obtain rfl := Option.some.inj hstep
        refine ⟨_, [(m, .lost)], rfl, ?_, hready .lost⟩
        simp [deed?, hopen, closes_emptying]
    · cases signal with
      | closed r =>
        obtain rfl := Option.some.inj hstep
        refine ⟨_, [(m, .answered r)], ?_, ?_, hready (.answered r)⟩
        · rw [discarded_emptying]
          rfl
        · simp [deed?, closes_emptying]
      | late =>
        simp only [Task.step] at hstep
        split at hstep
        · obtain rfl := Option.some.inj hstep
          refine ⟨_, [(m, .late)], ?_, ?_, hready .late⟩
          · rw [discarded_emptying]
            rfl
          · simp [deed?, closes_emptying]
        · simp at hstep
      | _ => simp [Task.step] at hstep

/-- A task that tries creations goes on, or has tried them all and answers. -/
theorem Fills.step (h : t.Fills n tally trials) (hstep : t.step s now isOpen l signal = some st) :
    (trials.length = n ∧ t.deed? s isOpen l signal = none ∧
        st.progress = .finished (.tallied (tally.plus (trials.map Trial.succeeded)))) ∨
      ∃ next more, st.progress = .running next ∧
        (t.deed? s isOpen l signal).toList = more.map .tried ∧
          next.Fills n tally (trials ++ more) := by
  have hready : ∀ {trials : List Trial} {left : ℕ} (outcome : Trial),
      trials.length + 1 + left = n → Fills n tally (trials ++ [outcome])
        ⟨.fill left ((tally.plus (trials.map Trial.succeeded)).count outcome.succeeded),
          .ready⟩ := by
    intro trials left outcome hn
    have hready : Fills n tally (trials ++ [outcome])
        ⟨.fill left (tally.plus ((trials ++ [outcome]).map Trial.succeeded)), .ready⟩ :=
      .ready (by simpa using hn)
    rwa [List.map_append, List.map_cons, List.map_nil, Tally.plus_concat] at hready
  cases h with
  | @ready trials left h =>
    cases left with
    | zero =>
      cases stepped hstep with
      | proceed errand => exact Or.inl ⟨by simpa using h, rfl, rfl⟩
    | succ left =>
      have hn : trials.length + 1 + left = n := by omega
      cases stepped hstep with
      | proceed errand =>
        right
        simp only [proceed, tryCreate, Ledger.reserve]
        cases hfull : l.atCapacity s with
        | true => exact ⟨_, [.full], rfl, by simp [deed?, hfull], hready .full hn⟩
        | false =>
          refine ⟨_, [], rfl, by simp [deed?, hfull], ?_⟩
          rw [List.append_nil]
          exact .creating hn
  | @creating trials left c h =>
    right
    cases stepped hstep with
    | create errand c c' hc =>
      refine ⟨_, [], rfl, ?_, ?_⟩
      · cases c with
        | ended result => exact absurd rfl (hc result)
        | _ => rfl
      · rw [List.append_nil]
        exact .creating h
    | settle errand result =>
      cases result with
      | error e => exact ⟨_, [.failed e], rfl, rfl, hready (.failed e) h⟩
      | ok m =>
        cases hstopped : l.stopped with
        | true =>
          refine ⟨⟨.fill left (tally.plus (trials.map Trial.succeeded)), .discarding m⟩,
            [.unwanted], ?_, by simp [deed?, hstopped], .unwanted (Or.inl rfl) h⟩
          simp [settle, Ledger.settle, Ledger.publish, hstopped, continuing]
        | false =>
          refine ⟨_, [.added m.id], ?_, by simp [deed?, hstopped], hready (.added m.id) h⟩
          simp [settle, Ledger.settle, Ledger.publish, hstopped, created, continuing,
            Trial.succeeded, Trial.added?]
  | @unwanted trials left m doing hdoing h =>
    right
    rcases hdoing with rfl | ⟨limit, rfl⟩
    · cases stepped hstep with
      | close errand m limit =>
        refine ⟨_, [], rfl, rfl, ?_⟩
        rw [List.append_nil]
        exact .unwanted (Or.inr ⟨_, rfl⟩) h
      | discard errand m =>
        refine ⟨_, [], rfl, rfl, ?_⟩
        rw [List.append_nil]
        exact hready .unwanted h
    · cases stepped hstep with
      | closed errand m limit success =>
        refine ⟨_, [], rfl, rfl, ?_⟩
        rw [List.append_nil]
        exact hready .unwanted h

end Task

/-- What a step leads to: the call goes on, or answers. -/
def Progress.Reckons (s : Settings) (call : Call) (deeds : List Deed) : Progress → Prop
  | .running t => t.Reckons s call deeds
  | .finished o =>
    ∃ tally, o = .tallied tally ∧ Tallied s call deeds (deeds.filterMap Deed.added?) tally

namespace Task

variable {s : Settings} {now : Time} {isOpen : Line → Bool} {l : Ledger} {t : Task}
  {signal : Signal} {st : Step} {call : Call} {deeds : List Deed} {F : Share}

theorem Reckons.step (h : t.Reckons s call deeds) (hl : l.Balanced F)
    (hstep : t.step s now isOpen l signal = some st) :
    st.progress.Reckons s call (deeds ++ (t.deed? s isOpen l signal).toList) := by
  cases h with
  | stop =>
    cases stepped hstep with
    | proceed errand =>
      have hcut : l.working.filter l.known.contains = l.working := by
        refine List.filter_eq_self.mpr fun id hid => ?_
        exact List.contains_iff_mem.mpr ((hl.listed.mem_known id).mpr (Or.inr hid))
      have hempties : Empties false l.idle ⟨l.working.length, 0⟩ []
          ⟨.emptying false l.idle ⟨l.working.length, 0⟩, .ready⟩ := .ready rfl
      have hdraining := Reckons.draining (s := s) hl.total_eq hempties
      simp only [proceed, Ledger.stop, hcut]
      exact hdraining
  | start =>
    cases stepped hstep with
    | proceed errand =>
      have hfills : Fills (l.missing s) .zero [] ⟨.fill (l.missing s) .zero, .ready⟩ :=
        .ready (Nat.zero_add _)
      exact .filling hfills
  | restart =>
    cases stepped hstep with
    | proceed errand =>
      have hempties : Empties true l.idle .zero [] ⟨.emptying true l.idle .zero, .ready⟩ :=
        .ready rfl
      exact .renewing hempties
  | @draining l₀ closings t hknown h =>
    rcases h.step hstep with ⟨hidle, rfl⟩ | ⟨next, more, hnext, hdeed, h⟩
    · cases stepped hstep with
      | proceed errand =>
        refine ⟨_, rfl, ?_⟩
        have hnone : ∀ tally,
            (deed? s isOpen l ⟨.emptying false [] tally, .ready⟩ signal).toList = [] :=
          fun tally => rfl
        rw [hnone, List.append_nil, List.filterMap_cons_none rfl, filterMap_closed]
        exact tallied_stop hidle hknown
    · rw [hnext, hdeed, List.cons_append, ← List.map_append]
      exact Reckons.draining hknown h
  | @filling l₀ trials t h =>
    rcases h.step hstep with ⟨hlength, hdeed, hfinished⟩ | ⟨next, more, hnext, hdeed, h⟩
    · rw [hfinished, hdeed, Option.toList_none, List.append_nil]
      refine ⟨_, rfl, ?_⟩
      rw [List.filterMap_cons_none rfl, filterMap_tried]
      exact tallied_start hlength
    · rw [hnext, hdeed, List.cons_append, ← List.map_append]
      exact Reckons.filling h
  | @renewing l₀ closings t h =>
    rcases h.step hstep with ⟨hidle, rfl⟩ | ⟨next, more, hnext, hdeed, h⟩
    · cases stepped hstep with
      | proceed errand =>
        have hfills : Fills (l.missing s) (Tally.zero.plus (closings.map (·.2.succeeded))) []
            ⟨.fill (l.missing s) (Tally.zero.plus (closings.map (·.2.succeeded))), .ready⟩ :=
          .ready (Nat.zero_add _)
        exact .refilling hidle hfills
    · rw [hnext, hdeed, List.cons_append, ← List.map_append]
      exact Reckons.renewing h
  | @refilling l₀ l₂ closings trials t hidle h =>
    rcases h.step hstep with ⟨hlength, hdeed, hfinished⟩ | ⟨next, more, hnext, hdeed, h⟩
    · rw [hfinished, hdeed, Option.toList_none, List.append_nil]
      refine ⟨_, rfl, ?_⟩
      rw [List.filterMap_append, List.filterMap_cons_none rfl, filterMap_closed, List.nil_append,
        List.filterMap_cons_none rfl, filterMap_tried]
      exact tallied_restart hidle hlength
    · have hrefilling := Reckons.refilling hidle h
      rw [List.map_append] at hrefilling
      rw [hnext, hdeed, List.append_assoc]
      exact hrefilling

theorem Reckons.not_parked {errand : Errand} {limit : Time}
    (h : Reckons s call deeds ⟨errand, .parked limit⟩) : False := by
  have hempties : ∀ {restart idle tally closings},
      ¬ Empties restart idle tally closings ⟨errand, .parked limit⟩ := by
    rintro restart idle tally closings (_ | ⟨hdoing, -⟩)
    simp at hdoing
  have hfills : ∀ {n tally trials}, ¬ Fills n tally trials ⟨errand, .parked limit⟩ := by
    rintro n tally trials (_ | _ | ⟨hdoing, -⟩)
    simp at hdoing
  cases h with
  | draining hknown h => exact hempties h
  | filling h => exact hfills h
  | renewing h => exact hempties h
  | refilling hidle h => exact hfills h

/-- A call for all the members creates some in order to fill the pool up. -/
theorem Reckons.fill_of_creating {errand : Errand} {c : Creation}
    (h : Reckons s call deeds ⟨errand, .creating c⟩) :
    ∃ left tally, errand = .fill left tally := by
  have hempties : ∀ {restart idle tally closings},
      ¬ Empties restart idle tally closings ⟨errand, .creating c⟩ := by
    rintro restart idle tally closings (_ | ⟨hdoing, -⟩)
    simp at hdoing
  have hfills : ∀ {n tally trials}, Fills n tally trials ⟨errand, .creating c⟩ →
      ∃ left tally, errand = .fill left tally := by
    rintro n tally trials (_ | _ | _) <;> exact ⟨_, _, rfl⟩
  cases h with
  | draining hknown h => exact absurd h hempties
  | filling h => exact hfills h
  | renewing h => exact absurd h hempties
  | refilling hidle h => exact hfills h

/-! ### Newcomers -/

theorem newcomers_of_proceed (hl : ∀ id ∈ l.idle.map (·.id), id ∈ l.known) (errand : Errand) :
    l.newcomers (proceed s now isOpen l errand).ledger = [] := by
  have harriving : (Task.share ⟨errand, .ready⟩).arriving = 0 := by cases errand <;> rfl
  refine Ledger.newcomers_eq_nil fun id hid => ?_
  rcases queued_proceed hid with hidle | hmem | ⟨m, -, -, -, hknown, -⟩
  · exact hl id hidle
  · simp [harriving] at hmem
  · exact hknown

/-- Nobody is new in the pool after a step but whom the call has added by it. -/
theorem newcomers_step (hl : ∀ id ∈ l.idle.map (·.id), id ∈ l.known)
    (hnew : ∀ m, t.doing = .creating (.ended (.ok m)) → m.id ∉ l.known)
    (hfill : ∀ c, t.doing = .creating c → ∃ left tally, t.errand = .fill left tally)
    (hstep : t.step s now isOpen l signal = some st) :
    l.newcomers st.ledger = ((t.deed? s isOpen l signal).bind Deed.added?).toList := by
  have hquiet (hidle : st.ledger.idle = l.idle)
      (hdeed : (t.deed? s isOpen l signal).bind Deed.added? = none) :
      l.newcomers st.ledger = ((t.deed? s isOpen l signal).bind Deed.added?).toList := by
    rw [Ledger.newcomers_eq_nil (hidle ▸ hl), hdeed]
    rfl
  cases stepped hstep with
  | proceed errand =>
    rw [newcomers_of_proceed hl errand]
    cases errand with
    | renew left tally => cases left <;> rfl
    | fill left tally =>
      cases left with
      | zero => rfl
      | succ left => cases hfull : l.atCapacity s <;> simp [deed?, hfull, Deed.added?, Trial.added?]
    | _ => rfl
  | create errand c c' hc =>
    refine hquiet rfl ?_
    cases c with
    | ended result => exact absurd rfl (hc result)
    | _ => rfl
  | settle errand result =>
    obtain ⟨left, tally, rfl⟩ := hfill _ rfl
    cases result with
    | error e => exact hquiet (by rw [settle, ledger_created]; rfl) rfl
    | ok m =>
      cases hstopped : l.stopped with
      | true =>
        refine hquiet ?_ (by simp [deed?, hstopped, Deed.added?, Trial.added?])
        simp [settle, Ledger.settle, Ledger.publish, hstopped]
      | false =>
        have hm := hnew m rfl
        have hold : ∀ n ∈ l.idle, n.id ∈ l.known := fun n hn => hl n.id (List.mem_map_of_mem hn)
        simpa [settle, Ledger.settle, Ledger.publish, hstopped, Ledger.newcomers, deed?,
          Deed.added?, Trial.added?, hm] using hold
  | close errand m limit =>
    refine hquiet rfl ?_
    simp only [deed?]
    split <;> rfl
  | discard errand m =>
    refine hquiet (by rw [ledger_discarded]; rfl) ?_
    simp only [deed?]
    split <;> rfl
  | closed errand m limit success =>
    refine hquiet (by rw [ledger_discarded]) ?_
    simp only [deed?]
    split
    · split <;> rfl
    · rfl
  | _ => exact hquiet rfl rfl

end Task

namespace World

variable {s : Settings} {w w' last : World} {t : TaskId} {actions : List Action} {call : Call}

def deedsOf (s : Settings) (w : World) (t : TaskId) (signal : Signal) : List Deed :=
  ((w.task? t).bind fun task => task.deed? s w.isOpen w.ledger signal).toList

/-- What a call for all the members does in the course of a run. -/
def deeds (s : Settings) (t : TaskId) (w : World) (actions : List Action) : List Deed :=
  trail (fun w signal _ => w.deedsOf s t signal) s t w actions

/-- The members that a task puts into the pool in the course of a run: they were not known before
its step, and are idle after it. -/
def published (s : Settings) (t : TaskId) (w : World) (actions : List Action) : List MemberId :=
  trail (fun w _ w' => w.ledger.newcomers w'.ledger) s t w actions

/-- Both at once. -/
def entry (s : Settings) (t : TaskId) (w : World) (signal : Signal) (w' : World) :
    List (List Deed × List MemberId) :=
  [(w.deedsOf s t signal, w.ledger.newcomers w'.ledger)]

theorem deeds_eq_flatMap (s : Settings) (t : TaskId) (w : World) (actions : List Action) :
    deeds s t w actions = (trail (entry s t) s t w actions).flatMap Prod.fst := by
  rw [← trail_flatMap]
  simp [deeds, entry]

theorem published_eq_flatMap (s : Settings) (t : TaskId) (w : World) (actions : List Action) :
    published s t w actions = (trail (entry s t) s t w actions).flatMap Prod.snd := by
  rw [← trail_flatMap]
  simp [published, entry]

/-- The deeds and the members published so far. -/
structure Entered (s : Settings) (call : Call) (past : List (List Deed × List MemberId))
    (task : Task) : Prop where
  reckons : task.Reckons s call (past.flatMap Prod.fst)
  published_eq : past.flatMap Prod.snd = (past.flatMap Prod.fst).filterMap Deed.added?

theorem newcomers_after (hw : Reachable s w) {task : Task} {deeds : List Deed} {signal : Signal}
    {st : Step} (htask : w.task? t = some task) (h : task.Reckons s call deeds)
    (hstep : task.step s w.now w.isOpen w.ledger signal = some st) :
    w.ledger.newcomers (w.after t signal st).ledger =
      (w.deedsOf s t signal).filterMap Deed.added? := by
  have hidle : ∀ id ∈ w.ledger.idle.map (·.id), id ∈ w.ledger.known :=
    fun _ hid => hw.balanced.mem_known hid
  have hnew : ∀ m, task.doing = .creating (.ended (.ok m)) → m.id ∉ w.ledger.known := by
    obtain ⟨errand, doing⟩ := task
    rintro m rfl
    exact (hw.notMem_known_of_ended htask).1
  have hfill : ∀ c, task.doing = .creating c → ∃ left tally, task.errand = .fill left tally := by
    obtain ⟨errand, doing⟩ := task
    rintro c rfl
    exact h.fill_of_creating
  rw [ledger_after, Task.newcomers_step hidle hnew hfill hstep, deedsOf, htask, Option.bind_some]
  cases task.deed? s w.isOpen w.ledger signal <;> rfl

theorem keeps_entered (s : Settings) (t : TaskId) (call : Call) :
    Keeps s t (entry s t) (Entered s call) where
  step := by
    intro w past task signal st next hw htask _ h hstep hnext
    have hreckons : Progress.Reckons s call (past.flatMap Prod.fst ++
        (task.deed? s w.isOpen w.ledger signal).toList) (.running next) :=
      hnext ▸ h.reckons.step hw.balanced hstep
    simp only [Progress.Reckons] at hreckons
    have hdeeds : w.deedsOf s t signal = (task.deed? s w.isOpen w.ledger signal).toList := by
      simp [deedsOf, htask]
    refine ⟨?_, ?_⟩
    · simpa [entry, hdeeds] using hreckons
    · simp [entry, List.flatMap_append, h.published_eq,
        newcomers_after hw htask h.reckons hstep]
  woken := fun h => h.reckons.not_parked.elim

/-- Nobody is published twice, and nobody who was in the pool before. -/
theorem published_nodup (hw : Reachable s w) (hrun : run s w actions = some last) :
    (published s t w actions).Nodup ∧
      ∀ id ∈ published s t w actions, ¬ w.ledger.Settled w.share id := by
  induction actions generalizing w with
  | nil => exact ⟨List.nodup_nil, by simp [published, trail]⟩
  | cons a actions ih =>
    obtain ⟨next, hact, hrest⟩ := Option.bind_eq_some_iff.mp hrun
    have hlater := later_of_act hact
    have hnext := hw.later hlater
    obtain ⟨hnodup, hunsettled⟩ := ih hnext hrest
    have hcons : published s t w (a :: actions) =
        marks (fun w _ w' => w.ledger.newcomers w'.ledger) t w a next ++
          published s t next actions := trail_cons hact
    have hsublist : (marks (fun w _ w' => w.ledger.newcomers w'.ledger) t w a next).Sublist
        (w.ledger.newcomers next.ledger) := by
      by_cases hadvance : ∃ signal, a = .advance t signal
      · obtain ⟨signal, rfl⟩ := hadvance
        rw [marks_advance]
      · rw [marks_of_ne_advance fun signal ha => hadvance ⟨signal, ha⟩]
        exact List.nil_sublist _
    have hnewcomer : ∀ id ∈ w.ledger.newcomers next.ledger,
        id ∈ next.ledger.known ∧ id ∉ w.ledger.known := by
      intro id hid
      obtain ⟨hidle, hunknown⟩ := List.mem_filter.mp hid
      exact ⟨hnext.balanced.mem_known hidle, by simpa using hunknown⟩
    rw [hcons]
    refine ⟨?_, fun id hid hsettled => ?_⟩
    · have hnew : (w.ledger.newcomers next.ledger).Nodup := hnext.balanced.idle_nodup.filter _
      refine (hnew.sublist hsublist).append hnodup (List.disjoint_left.mpr fun id hid hid' => ?_)
      exact hunsettled id hid' (hnext.balanced.settled (hnewcomer id (hsublist.subset hid)).1)
    · rcases List.mem_append.mp hid with hid | hid
      · obtain ⟨hknown, hunknown⟩ := hnewcomer id (hsublist.subset hid)
        exact hw.notMem_known_later hsettled hunknown hlater hknown
      · exact hunsettled id hid (hw.settled_later hsettled hlater)

/-- A call that stops, starts or restarts a pool answers with a tally of what it has done, whatever
others do meanwhile.  The creations that it counts as successes are those whose members it has put
into the pool, each once. -/
theorem Reachable.answers_tally {called ended : World} {signal : Signal} {o : Outcome}
    (h : Reachable s w) (hcall : w.act s (.begin t call) = some called) (hbulk : call ≠ .acquire)
    (hrun : run s called actions = some last) (hlaunch : ∀ a ∈ actions, a.launches? ≠ some t)
    (hended : last.act s (.advance t signal) = some ended)
    (hfinished : ended.finished = last.finished ++ [(t, o)]) :
    ∃ tally, o = .tallied tally ∧
      Tallied s call (deeds s t called (actions ++ [.advance t signal]))
        (published s t called (actions ++ [.advance t signal])) tally ∧
          (published s t called (actions ++ [.advance t signal])).Nodup := by
  have hcalled : Reachable s called := h.later (later_of_act hcall)
  have hlast : Reachable s last := hcalled.later ⟨actions, hrun⟩
  have hbegun : ∀ task, called.task? t = some task → Entered s call [] task := by
    cases acted hcall with
    | begin t call hfresh =>
      intro task htask
      rw [task?_launch_self hfresh] at htask
      obtain rfl := Option.some.inj htask
      refine ⟨?_, rfl⟩
      cases call with
      | acquire => exact absurd rfl hbulk
      | start => exact .start
      | stop => exact .stop
      | restart => exact .restart
  have hentered := (keeps_entered s t call).run hcalled hbegun hrun hlaunch
  have hwhole : run s called (actions ++ [.advance t signal]) = some ended := by
    calc run s called (actions ++ [.advance t signal])
      _ = run s last [.advance t signal] := by rw [run_append, hrun, Option.bind_some]
      _ = some ended := by rw [run, hended, Option.bind_some, run]
  obtain ⟨task, st, htask, hstep, rfl⟩ := act_advance hended
  have hpast := hentered task htask
  rw [List.nil_append] at hpast
  have hdeeds : deeds s t called (actions ++ [.advance t signal]) =
      deeds s t called actions ++ last.deedsOf s t signal := by
    rw [deeds, trail_concat hrun hended, marks_advance]
    rfl
  have hpublished : published s t called (actions ++ [.advance t signal]) =
      (deeds s t called (actions ++ [.advance t signal])).filterMap Deed.added? := by
    have hbefore : published s t called actions =
        (deeds s t called actions).filterMap Deed.added? := by
      rw [published_eq_flatMap, deeds_eq_flatMap, hpast.published_eq]
    calc published s t called (actions ++ [.advance t signal])
      _ = published s t called actions ++
          last.ledger.newcomers (last.after t signal st).ledger := by
        rw [published, trail_concat hrun hended, marks_advance]
        rfl
      _ = (deeds s t called actions).filterMap Deed.added? ++
          (last.deedsOf s t signal).filterMap Deed.added? := by
        rw [hbefore, newcomers_after hlast htask hpast.reckons hstep]
      _ = (deeds s t called (actions ++ [.advance t signal])).filterMap Deed.added? := by
        rw [hdeeds, List.filterMap_append]
  have hreckons := hpast.reckons.step hlast.balanced hstep
  rw [progress_of_finished hfinished, ← deeds_eq_flatMap] at hreckons
  obtain ⟨tally, rfl, htallied⟩ := hreckons
  refine ⟨tally, rfl, ?_, (published_nodup hcalled hwhole).1⟩
  rw [hpublished, hdeeds, deedsOf, htask, Option.bind_some]
  exact htallied

/-- A pool with one idle member. -/
def stocked : World where
  now := 0
  ledger := ⟨[⟨⟨1⟩, ⟨1⟩, false, true⟩], [⟨1⟩], [], [], 0, false, 1, [], ⟨2⟩⟩
  bell := ⟨true, [], [], []⟩
  tasks := []
  finished := [(⟨1⟩, .tallied ⟨1, 0⟩)]
  held := []
  lines := [⟨1⟩]
  dead := []
  asked := [.connect]

theorem reachable_stocked : Reachable .default stocked := by
  refine ⟨[.begin ⟨1⟩ .start, .advance ⟨1⟩ .go, .advance ⟨1⟩ .go, .advance ⟨1⟩ (.connected ⟨1⟩),
    .advance ⟨1⟩ .go, .advance ⟨1⟩ .go], ?_⟩
  rfl

/-- A restart closes the member, which takes too long, and adds another, which is taken at once. -/
def restarted : List Action :=
  [.advance ⟨2⟩ .go, .advance ⟨2⟩ .go, .advance ⟨2⟩ .go, .begin ⟨3⟩ .acquire, .wait 5000,
    .advance ⟨2⟩ .late, .advance ⟨2⟩ .go, .advance ⟨2⟩ .go, .advance ⟨2⟩ (.connected ⟨2⟩),
    .advance ⟨2⟩ .go, .advance ⟨3⟩ .go]

theorem answers_tally_restarted : ∃ called last ended,
    stocked.act .default (.begin ⟨2⟩ .restart) = some called ∧
      run .default called restarted = some last ∧
        (∀ a ∈ restarted, a.launches? ≠ some ⟨2⟩) ∧
          last.act .default (.advance ⟨2⟩ .go) = some ended ∧
            ended.finished = last.finished ++ [(⟨2⟩, .tallied ⟨1, 1⟩)] ∧
              Tallied .default .restart
                [.flushed stocked.ledger, .closed (⟨⟨1⟩, ⟨1⟩, false, true⟩, .late),
                  .sized { stocked.ledger with idle := [], known := [], revoked := [⟨1⟩] },
                  .tried (.added ⟨2⟩)] [⟨2⟩] ⟨1, 1⟩ := by
  have hlaunch : ∀ a ∈ restarted, a.launches? ≠ some ⟨2⟩ := by
    simp [restarted, Action.launches?]
  have hcall : stocked.act .default (.begin ⟨2⟩ .restart) =
      some (stocked.launch ⟨2⟩ .restart) := rfl
  obtain ⟨tally, htally, htallied, -⟩ := reachable_stocked.answers_tally hcall (by simp)
    (rfl : run .default _ restarted = some _) hlaunch
    (rfl : act .default _ (.advance ⟨2⟩ .go) = some _) rfl
  obtain rfl := Outcome.tallied.inj htally
  exact ⟨_, _, _, rfl, rfl, hlaunch, rfl, rfl, htallied⟩

end World

end FaxClient.Pool
