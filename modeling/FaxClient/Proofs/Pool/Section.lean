import FaxClient.Proofs.Pool.Share

/-!
# Sections

Whatever happens to a pool happens in sections: stretches of work under the lock of the ledger, and
closings and losses outside it.  A section changes the ledger and moves members and places between
the ledger and the shares outside, and this is all that it can do.  Each action of a world is a
sequence of sections, whatever tasks it interrupts, so what every section keeps holds in every world
that a pool can come to.
-/

namespace FaxClient.Pool

/-- What one section makes of a ledger and of the share of everybody outside it. -/
inductive Section (s : Settings) : Ledger × Share → Ledger × Share → Prop
  | reserve {l l' : Ledger} {id : MemberId} (F : Share) (h : l.reserve s = some (id, l')) :
      Section s (l, F) (l', F + (.place + .arrival id))
  /-- A creation that failed or was abandoned. -/
  | settle (l : Ledger) (F : Share) : Section s (l, F + .place) (l.settle, F)
  | publish {l l' : Ledger} {m : Member} (F : Share) (h : l.settle.publish m = some l') :
      Section s (l, F + (.place + .arrival m.id)) (l', F)
  /-- A member that was created for a pool that is stopped by now. -/
  | turnAway {l : Ledger} (F : Share) (id : MemberId) :
      Section s (l, F + .arrival id) (l, F + .closing {id})
  | checkOut {l l' : Ledger} {isOpen : Line → Bool} {m : Member} (F : Share)
      (h : l.take isOpen = (.ready m, l')) : Section s (l, F) (l', F + .held {m.id})
  | evict {l l' : Ledger} {isOpen : Line → Bool} {m : Member} (F : Share)
      (h : l.take isOpen = (.stale m, l')) : Section s (l, F) (l', F + .closing {m.id})
  | keep {l l' : Ledger} {isOpen : Line → Bool} {m : Member} (F : Share)
      (h : l.giveBack s isOpen m = (.kept, l')) : Section s (l, F + .held {m.id}) (l', F)
  | doom {l l' : Ledger} {isOpen : Line → Bool} {m m' : Member} {replace : Bool} (F : Share)
      (h : l.giveBack s isOpen m = (.doomed m' replace, l')) :
      Section s (l, F + .held {m.id}) (l', F + .closing {m'.id})
  | reopen (l : Ledger) (F : Share) : Section s (l, F) ((l.reopen s).2, F)
  | stop (l : Ledger) (F : Share) :
      Section s (l, F) (l.stop.2.2, F + .closing (memberIds l.stop.1))
  | flush (l : Ledger) (F : Share) :
      Section s (l, F) (l.flush.2, F + .closing (memberIds l.flush.1))
  /-- A member that its holder let go of. -/
  | abandon (l : Ledger) (F : Share) (id : MemberId) :
      Section s (l, F + .held {id}) (l.abandon id, F)
  | revoke (l : Ledger) (F : Share) (id : MemberId) :
      Section s (l, F + .closing {id}) (l.revoke id, F + .closing {id})
  /-- Members that nobody works with any more: they were closed, or never came to be. -/
  | lose (l : Ledger) (F : Share) {G : Share} (hG : G.Loose) : Section s (l, F + G) (l, F)

abbrev Sections (s : Settings) : Ledger × Share → Ledger × Share → Prop :=
  Relation.ReflTransGen (Section s)

theorem Sections.invariant {s : Settings} {P : Ledger × Share → Prop}
    (hP : ∀ {x y}, Section s x y → P x → P y) {x y : Ledger × Share} (h : Sections s x y)
    (hx : P x) : P y := by
  induction h with
  | refl => exact hx
  | tail _ hsection ih => exact hP hsection ih

/-! ## The steps of a task -/

/-- A step that a task with this share can take among any others. -/
structure Step.Lawful (s : Settings) (l : Ledger) (F : Share) (st : Step) : Prop where
  sections : ∀ G, Sections s (l, G + F) (st.ledger, G + st.progress.share)
  proper : ∀ t, st.progress = .running t → t.Proper

namespace Step.Lawful

variable {s : Settings} {l : Ledger} {F : Share} {st : Step}

theorem of_section (l' : Ledger) (F' : Share)
    (hsection : ∀ G, Section s (l, G + F) (l', G + F')) (h : st.Lawful s l' F') :
    st.Lawful s l F where
  sections := fun G => .head (hsection G) (h.sections G)
  proper := h.proper

theorem of_loose {G : Share} (hG : G.Loose) (h : st.Lawful s l F) : st.Lawful s l (F + G) := by
  refine h.of_section l F fun H => ?_
  rw [← add_assoc]
  exact .lose l (H + F) hG

theorem withRing (h : st.Lawful s l F) (ring : Ring) :
    ({ st with ring := ring } : Step).Lawful s l F :=
  ⟨h.sections, h.proper⟩

end Step.Lawful

namespace Ledger

theorem take_cases (l : Ledger) (isOpen : Line → Bool) :
    l.take isOpen = (.stopped, l) ∨ l.take isOpen = (.nothing, l) ∨
      ∃ m rest, l.idle = m :: rest ∧
        (l.take isOpen = (.ready { m with working := true },
            { l with idle := rest, working := l.working.insert m.id }) ∨
          l.take isOpen = (.stale m, forget { l with idle := rest } m.id)) := by
  unfold take
  split
  · exact Or.inl rfl
  · split
    · exact Or.inr (Or.inl rfl)
    · next m rest hidle =>
      refine Or.inr (Or.inr ⟨m, rest, hidle, ?_⟩)
      dsimp only
      split
      · exact Or.inl rfl
      · exact Or.inr rfl

theorem giveBack_cases (l : Ledger) (s : Settings) (isOpen : Line → Bool) (m : Member) :
    (m.id ∈ l.known ∧ l.giveBack s isOpen m = (.kept, { l with
      working := l.working.erase m.id
      flagged := l.flagged.erase m.id
      idle := l.idle ++ [{ m with working := false }] })) ∨
      ∃ replace, l.giveBack s isOpen m =
        (.doomed { m with working := false } replace, l.forget m.id) := by
  unfold giveBack
  dsimp only
  split
  · next hkept =>
    left
    simp only [Bool.and_eq_true, List.contains_iff_mem] at hkept
    exact ⟨hkept.1.1.1, rfl⟩
  · right
    exact ⟨_, rfl⟩

end Ledger

namespace Task

variable {s : Settings} {now : Time} {l : Ledger} {errand : Errand}

theorem lawful_continuing {doing : Doing} {ring : Ring} {F : Share}
    (hshare : F = errand.share + doing.share) (hproper : Task.Proper ⟨errand, doing⟩) :
    (continuing l errand doing ring).Lawful s l F where
  sections := fun G => by
    subst hshare
    exact .refl
  proper := by
    rintro t ⟨⟩
    exact hproper

theorem lawful_finishing {o : Outcome} {ring : Ring} {F : Share} (hshare : F = o.share) :
    (finishing l o ring).Lawful s l F where
  sections := fun G => by
    subst hshare
    exact .refl
  proper := by rintro t ⟨⟩

theorem proper_of_not_isBusy {doing : Doing} (h : doing.isBusy = false) :
    Task.Proper ⟨errand, doing⟩ := by
  intro hbusy
  simp [h] at hbusy

theorem closing_memberIds_cons (m : Member) (left : List Member) :
    Share.closing (memberIds (m :: left)) = .closing (memberIds left) + .closing {m.id} := by
  rw [memberIds_cons, Share.closing_add, add_comm]

theorem lawful_created (hfree : errand.isFree = true) (added : Bool) :
    (created s now l errand added).Lawful s l errand.share := by
  unfold created
  split
  · next deadline =>
    cases added with
    | true => exact lawful_continuing rfl (proper_of_not_isBusy rfl)
    | false => exact lawful_continuing rfl (proper_of_not_isBusy rfl)
  · exact lawful_continuing rfl (proper_of_not_isBusy rfl)
  · rw [← zero_add errand.share]
    exact (lawful_finishing (o := .released) rfl).of_loose (Errand.loose_share hfree)

theorem lawful_discarded (hfree : errand.isFree = true) (success : Bool) :
    (discarded s now l errand success).Lawful s l errand.share := by
  unfold discarded
  split
  · exact lawful_continuing (add_zero _).symm (proper_of_not_isBusy rfl)
  · exact lawful_continuing (add_zero _).symm (proper_of_not_isBusy rfl)
  · exact lawful_continuing (add_zero _).symm (proper_of_not_isBusy rfl)
  · exact lawful_continuing (add_zero _).symm (proper_of_not_isBusy rfl)
  · exact lawful_created hfree false

theorem lawful_tryCreate (errand : Errand) (hfree : errand.isFree = true) :
    (tryCreate s now l errand).Lawful s l errand.share := by
  unfold tryCreate
  split
  · next id l' hreserve =>
    refine .of_section l' (errand.share + (.place + .arrival id)) (fun G => ?_) ?_
    · rw [← add_assoc]
      exact .reserve _ hreserve
    · exact lawful_continuing rfl fun _ => hfree
  · exact lawful_created hfree false

theorem lawful_proceed (isOpen : Line → Bool) (errand : Errand) :
    (proceed s now isOpen l errand).Lawful s l errand.share := by
  cases errand with
  | acquire deadline =>
    rcases l.take_cases isOpen with htake | htake | ⟨m, rest, -, htake | htake⟩
    · simp only [proceed, htake]
      exact lawful_finishing rfl
    · simp only [proceed, htake]
      split
      · exact lawful_finishing rfl
      · exact lawful_continuing rfl (proper_of_not_isBusy rfl)
    · simp only [proceed, htake]
      refine .of_section _ (.held {m.id}) (fun G => ?_) (lawful_finishing rfl)
      simpa [Errand.share] using Section.checkOut G htake
    · simp only [proceed, htake]
      refine .of_section (Ledger.forget { l with idle := rest } m.id) (.closing {m.id})
        (fun G => ?_) ?_
      · simpa [Errand.share] using Section.evict G htake
      · exact lawful_continuing (zero_add _).symm fun _ => rfl
  | grow deadline => exact lawful_tryCreate (.grow deadline) rfl
  | release m =>
    rcases l.giveBack_cases s isOpen m with ⟨-, hback⟩ | ⟨replace, hback⟩
    · simp only [proceed, hback]
      refine .of_section _ 0 (fun G => ?_) (lawful_finishing rfl)
      simpa [Errand.share] using Section.keep G hback
    · simp only [proceed, hback]
      refine .of_section (l.forget m.id) (.closing {m.id}) (fun G => ?_) ?_
      · have hsection := Section.doom G hback
        exact hsection
      · exact lawful_continuing (zero_add _).symm fun _ => rfl
  | replace wanted =>
    cases wanted with
    | true => exact lawful_tryCreate (.replace false) rfl
    | false => exact lawful_finishing rfl
  | start =>
    refine .of_section (l.reopen s).2 _ (fun G => .reopen l _) ?_
    exact lawful_continuing rfl (proper_of_not_isBusy rfl)
  | fill left tally =>
    cases left with
    | zero => exact lawful_finishing rfl
    | succ left => exact lawful_tryCreate (.fill left tally) rfl
  | stop =>
    refine .of_section l.stop.2.2 (.closing (memberIds l.stop.1)) (fun G => ?_) ?_
    · simpa [Errand.share] using Section.stop (s := s) l G
    · exact lawful_continuing (add_zero _).symm (proper_of_not_isBusy rfl)
  | drain left tally =>
    cases left with
    | nil => exact lawful_finishing rfl
    | cons m left => exact lawful_continuing (closing_memberIds_cons m left) fun _ => rfl
  | restart =>
    refine .of_section l.flush.2 (.closing (memberIds l.flush.1)) (fun G => ?_) ?_
    · simpa [Errand.share] using Section.flush (s := s) l G
    · exact lawful_continuing (add_zero _).symm (proper_of_not_isBusy rfl)
  | renew left tally =>
    cases left with
    | nil => exact lawful_continuing rfl (proper_of_not_isBusy rfl)
    | cons m left => exact lawful_continuing (closing_memberIds_cons m left) fun _ => rfl
  | ask m command =>
    simp only [proceed]
    split
    · exact lawful_finishing rfl
    · exact lawful_continuing (add_zero _).symm (proper_of_not_isBusy rfl)
  | leave m => exact lawful_continuing (add_zero _).symm (proper_of_not_isBusy rfl)

theorem lawful_settle (hfree : errand.isFree = true) (result : Except ExchangeError Member) :
    (settle s now l errand result).Lawful s l
      (errand.share + (.place + (Creation.ended result).share)) := by
  cases result with
  | error e =>
    refine .of_section l.settle errand.share (fun G => ?_)
      (lawful_created hfree false)
    simpa [Creation.share, add_assoc] using Section.settle (s := s) l (G + errand.share)
  | ok m =>
    cases hpublish : l.settle.publish m with
    | none =>
      simp only [settle, hpublish]
      refine .of_section l.settle (errand.share + .arrival m.id) (fun G => ?_) ?_
      · have hsection := Section.settle (s := s) l (G + errand.share + .arrival m.id)
        rwa [show G + errand.share + .arrival m.id + .place =
          G + (errand.share + (.place + .arrival m.id)) by abel, add_assoc G] at hsection
      refine .of_section l.settle (errand.share + .closing {m.id}) (fun G => ?_) ?_
      · rw [← add_assoc, ← add_assoc]
        exact .turnAway _ m.id
      · exact lawful_continuing rfl fun _ => hfree
    | some l' =>
      simp only [settle, hpublish]
      refine .of_section l' errand.share (fun G => ?_)
        ((lawful_created hfree true).withRing .once)
      rw [← add_assoc]
      exact .publish _ hpublish

/-- A creation goes on, or has failed: then its member never comes to be. -/
theorem lawful_creating (hfree : errand.isFree = true) {c c' : Creation} {F : Share}
    (hshare : c.share = c'.share + F) (hF : F.Loose) :
    (continuing l errand (.creating c') .none).Lawful s l (share ⟨errand, .creating c⟩) := by
  have hlawful : (continuing l errand (.creating c') .none).Lawful s l
      (errand.share + (.place + c'.share)) := lawful_continuing rfl fun _ => hfree
  have heq : share ⟨errand, .creating c⟩ = errand.share + (.place + c'.share) + F := by
    simp only [share, Doing.share, hshare]
    abel
  rw [heq]
  exact hlawful.of_loose hF

@[simp] theorem share_loginWith (m : Member) (rest : List Login) :
    (loginWith m rest).share = .arrival m.id := by
  cases rest <;> rfl

@[simp] theorem id_noted (m : Member) (r : Except ExchangeError Reply) : (noted m r).id = m.id := by
  cases r with
  | ok reply => rfl
  | error e => cases he : e.isFatal <;> simp [noted, he]

theorem share_of_not_isBusy {doing : Doing} (h : doing.isBusy = false) :
    share ⟨errand, doing⟩ = errand.share := by
  simp [share, Doing.share_of_not_isBusy h]

variable {isOpen : Line → Bool} {signal : Signal} {st : Step}

theorem lawful_step_creating {c : Creation} (hfree : errand.isFree = true)
    (h : step s now isOpen l ⟨errand, .creating c⟩ signal = some st) :
    st.Lawful s l (share ⟨errand, .creating c⟩) := by
  have hfailed (e : ExchangeError) :
      (continuing l errand (.creating (.ended (.error e))) .none).Lawful s l
        (share ⟨errand, .creating c⟩) :=
    lawful_creating hfree (zero_add _).symm c.loose_share
  cases c with
  | connecting id =>
    cases signal with
    | connected line =>
      obtain rfl := Option.some.inj h
      refine lawful_creating hfree ?_ .zero
      rw [share_loginWith, add_zero]
      rfl
    | unconnected e =>
      obtain rfl := Option.some.inj h
      exact hfailed e
    | _ => simp [step] at h
  | loggingIn m request rest =>
    cases signal with
    | replied r =>
      obtain rfl := Option.some.inj h
      refine lawful_creating hfree ?_ .zero
      split
      · rw [share_loginWith, add_zero]
        rfl
      · exact (add_zero _).symm
    | _ => simp [step] at h
  | closing m error limit =>
    cases signal with
    | closed r =>
      obtain rfl := Option.some.inj h
      exact hfailed error
    | late =>
      simp only [step] at h
      split at h
      · obtain rfl := Option.some.inj h
        exact hfailed error
      · simp at h
    | _ => simp [step] at h
  | ended result =>
    cases signal with
    | go =>
      obtain rfl := Option.some.inj h
      exact lawful_settle hfree result
    | _ => simp [step] at h

theorem lawful_step_discarding {m : Member} (hfree : errand.isFree = true)
    (h : step s now isOpen l ⟨errand, .discarding m⟩ signal = some st) :
    st.Lawful s l (share ⟨errand, .discarding m⟩) := by
  cases signal with
  | go =>
    -- The member is revoked first, and need not be closed if its session is not open.
    refine .of_section (l.revoke m.id) (errand.share + .closing {m.id}) (fun G => ?_) ?_
    · simp only [share, Doing.share, ← add_assoc]
      exact .revoke l _ m.id
    · simp only [step] at h
      split at h
      · obtain rfl := Option.some.inj h
        exact lawful_continuing rfl fun _ => hfree
      · obtain rfl := Option.some.inj h
        exact (lawful_discarded hfree true).of_loose (Share.loose_closing _)
  | _ => simp [step] at h

theorem lawful_step_closing {m : Member} {limit : Time} (hfree : errand.isFree = true)
    (h : step s now isOpen l ⟨errand, .closing m limit⟩ signal = some st) :
    st.Lawful s l (share ⟨errand, .closing m limit⟩) := by
  have hclosed (success : Bool) : (discarded s now l errand success).Lawful s l
      (share ⟨errand, .closing m limit⟩) :=
    (lawful_discarded hfree success).of_loose (Share.loose_closing _)
  cases signal with
  | closed r =>
    obtain rfl := Option.some.inj h
    exact hclosed r.isOk
  | late =>
    simp only [step] at h
    split at h
    · obtain rfl := Option.some.inj h
      exact hclosed false
    · simp at h
  | _ => simp [step] at h

theorem lawful_step_parked {limit : Time}
    (h : step s now isOpen l ⟨errand, .parked limit⟩ signal = some st) :
    st.Lawful s l (share ⟨errand, .parked limit⟩) := by
  have hready : (continuing l errand .ready .none).Lawful s l (share ⟨errand, .parked limit⟩) :=
    lawful_continuing rfl (proper_of_not_isBusy rfl)
  cases signal with
  | rung =>
    obtain rfl := Option.some.inj h
    exact hready
  | late =>
    simp only [step] at h
    split at h
    · obtain rfl := Option.some.inj h
      exact hready
    · simp at h
  | _ => simp [step] at h

/-- Whatever the answer is, the holder has its member again. -/
theorem lawful_step_asking (h : step s now isOpen l ⟨errand, .asking⟩ signal = some st) :
    st.Lawful s l (share ⟨errand, .asking⟩) := by
  have hanswered (m : Member) (command : Option Command) (r r' : Except ExchangeError Reply) :
      (finishing l (.answered (noted m r) r') .none).Lawful s l (share ⟨.ask m command, .asking⟩) :=
    lawful_finishing (by simp [share, Errand.share, Doing.share, Outcome.share])
  cases signal with
  | replied r =>
    cases errand with
    | ask m command =>
      obtain rfl := Option.some.inj h
      exact hanswered m command r r
    | _ => simp [step] at h
  | cut =>
    cases errand with
    | ask m command =>
      simp only [step] at h
      split at h
      · obtain rfl := Option.some.inj h
        exact hanswered m command _ _
      · simp at h
    | _ => simp [step] at h
  | _ => simp [step] at h

theorem lawful_step_leaving (h : step s now isOpen l ⟨errand, .leaving⟩ signal = some st) :
    st.Lawful s l (share ⟨errand, .leaving⟩) := by
  cases signal with
  | closed r =>
    cases errand with
    | leave m =>
      obtain rfl := Option.some.inj h
      exact lawful_finishing (add_zero _)
    | _ => simp [step] at h
  | _ => simp [step] at h

theorem lawful_step {t : Task} (hproper : t.Proper)
    (h : t.step s now isOpen l signal = some st) : st.Lawful s l t.share := by
  obtain ⟨errand, doing⟩ := t
  cases doing with
  | ready =>
    cases signal with
    | go =>
      obtain rfl := Option.some.inj h
      rw [share_of_not_isBusy rfl]
      exact lawful_proceed isOpen errand
    | _ => simp [step] at h
  | creating c => exact lawful_step_creating (hproper rfl) h
  | discarding m => exact lawful_step_discarding (hproper rfl) h
  | closing m limit => exact lawful_step_closing (hproper rfl) h
  | parked limit => exact lawful_step_parked h
  | asking => exact lawful_step_asking h
  | leaving => exact lawful_step_leaving h

theorem sections_abandon_of_isFree {doing : Doing} (hfree : errand.isFree = true) (F : Share) :
    Sections s (l, F + share ⟨errand, doing⟩) ((abandon l ⟨errand, doing⟩).1, F) := by
  have habandon : abandon l ⟨errand, doing⟩ =
      if isCreating ⟨errand, doing⟩ then (l.settle, .once) else (l, .none) := by
    cases errand with
    | release m => simp [Errand.isFree] at hfree
    | _ => rfl
  have hloose := Errand.loose_share hfree
  rw [habandon]
  cases doing with
  | creating c =>
    have hsettle := Section.settle (s := s) l (F + (errand.share + c.share))
    rw [show F + (errand.share + c.share) + .place = F + share ⟨errand, .creating c⟩ by
      simp only [share, Doing.share]
      abel] at hsettle
    exact .head hsettle (.single (.lose _ F (hloose.add c.loose_share)))
  | discarding m => exact .single (.lose l F (hloose.add (Share.loose_closing _)))
  | closing m limit => exact .single (.lose l F (hloose.add (Share.loose_closing _)))
  | _ => exact .single (.lose l F (hloose.add .zero))

/-- What an abandoned task holds is let go of, but for a member that goes back to its holder. -/
theorem sections_abandon {t : Task} (hproper : t.Proper) (F : Share) :
    Sections s (l, F + t.share)
      ((t.abandon l).1, F + .held (memberIds t.lent?.toList)) := by
  obtain ⟨errand, doing⟩ := t
  cases hfree : errand.isFree with
  | true =>
    have hlent : lent? ⟨errand, doing⟩ = none := by
      cases errand <;> simp_all [lent?, Errand.isFree]
    have hsections : Sections s (l, F + share ⟨errand, doing⟩) ((abandon l ⟨errand, doing⟩).1, F) :=
      sections_abandon_of_isFree hfree F
    simpa [hlent] using hsections
  | false =>
    have hbusy : doing.isBusy = false := by
      by_contra hbusy
      simp [hproper (by simpa using hbusy)] at hfree
    have hcreating : isCreating ⟨errand, doing⟩ = false := by
      cases doing <;> simp_all [isCreating, Doing.isBusy]
    rw [share_of_not_isBusy hbusy]
    cases errand with
    | release m =>
      refine .single ?_
      simpa [abandon, lent?, Errand.share] using Section.abandon (s := s) l F m.id
    | ask m command =>
      simpa [abandon, hcreating, lent?, Errand.share] using Relation.ReflTransGen.refl
    | leave m =>
      simpa [abandon, hcreating, lent?, Errand.share] using Relation.ReflTransGen.refl
    | _ => simp [Errand.isFree] at hfree

end Task

end FaxClient.Pool
