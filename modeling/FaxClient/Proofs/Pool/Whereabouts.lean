import FaxClient.Proofs.Pool.Retirement

/-!
# What a step does with sessions

The sessions of a task stand in its errand and in what it is doing.  A step moves them between the
task and the queue of idle members, and loses none: but for one that is connected in it, and one
whose teardown is over with it, they are the same before and after.

A teardown begins with the step that takes a member to be closed, or with the one in which a login
fails, and ends with a step of the same task.  The session is asked to close as its teardown begins,
if it is open then, and at no other step but the one in which its holder takes leave.
-/

namespace FaxClient.Pool

def lines (members : List Member) : List Line := members.map (·.line)

theorem coe_lines_cons (m : Member) (members : List Member) :
    (lines (m :: members) : Multiset Line) = lines members + ([m.line] : List Line) := by
  rw [Multiset.coe_add]
  exact Multiset.coe_eq_coe.mpr (List.perm_append_singleton _ _).symm

theorem coe_lines_append (ms ns : List Member) :
    (lines (ms ++ ns) : Multiset Line) = lines ms + lines ns := by
  rw [lines, List.map_append, ← Multiset.coe_add, lines, lines]

/-! ## The sessions of a task -/

def Creation.lines : Creation → List Line
  | .connecting _ | .ended (.error _) => []
  | .loggingIn m _ _ | .closing m _ _ | .ended (.ok m) => [m.line]

def Doing.lines : Doing → List Line
  | .creating c => c.lines
  | .discarding m | .closing m _ => [m.line]
  | .ready | .parked _ | .asking | .leaving => []

/-- Whether what a task does is a teardown that has begun. -/
def Doing.isClosing : Doing → Bool
  | .creating (.closing ..) | .closing .. => true
  | _ => false

def Errand.lines : Errand → List Line
  | .release m | .ask m _ | .leave m => [m.line]
  | .drain left _ | .renew left _ => Pool.lines left
  | .acquire _ | .grow _ | .replace _ | .start | .fill .. | .stop | .restart => []

namespace Task

def lines (t : Task) : List Line := t.errand.lines ++ t.doing.lines

/-- The session whose teardown a task has begun. -/
def closing (t : Task) : List Line := if t.doing.isClosing then t.doing.lines else []

/-- A member is created for an errand that has no sessions. -/
def Unladen (t : Task) : Prop := t.isCreating = true → t.errand.lines = []

end Task

/-- How a session is found when its teardown begins. -/
inductive Ending where
  /-- It is open, and is asked to close. -/
  | dismissed
  /-- It is not open any more. -/
  | lost
  /-- Its login has failed, and it is asked to close. -/
  | refused
  deriving DecidableEq

/-- How often a session is asked to close in its teardown. -/
def Ending.calls : Ending → ℕ
  | .dismissed | .refused => 1
  | .lost => 0

def Query.closed? : Query → Option Line
  | .close line => some line
  | _ => none

def Signal.line? : Signal → Option Line
  | .connected line => some line
  | _ => none

namespace Task

/-- The teardown that begins when a task goes on. -/
def begins (s : Settings) (isOpen : Line → Bool) (t : Task) (signal : Signal) :
    List (Line × Ending) :=
  match t.doing, signal with
  | .discarding m, _ => [(m.line, if isOpen m.line then .dismissed else .lost)]
  | .creating (.loggingIn m request rest), .replied r =>
    match r.bind (Login.next s request rest) with
    | .ok _ => []
    | .error _ => [(m.line, .refused)]
  | _, _ => []

/-- The session whose teardown is over when a task goes on. -/
def ends (isOpen : Line → Bool) (t : Task) : List Line :=
  match t.doing with
  | .discarding m => if isOpen m.line then [] else [m.line]
  | _ => t.closing

/-- The session whose holder takes leave of it when a task goes on. -/
def parts (t : Task) : List Line :=
  match t.doing, t.errand with
  | .ready, .leave m => [m.line]
  | _, _ => []

end Task

def Outcome.lines : Outcome → List Line
  | .acquired m | .answered m _ | .left m _ => [m.line]
  | .refused _ | .released | .tallied _ => []

namespace Progress

def lines : Progress → List Line
  | .running t => t.lines
  | .finished o => o.lines

def closing : Progress → List Line
  | .running t => t.closing
  | .finished _ => []

/-- The session that is asked to close from now on. -/
def asked : Progress → List Line
  | .running t => (t.query?.bind Query.closed?).toList
  | .finished _ => []

/-- A task goes on with these sessions, and does not tear any down. -/
structure Quiet (p : Progress) (lines : List Line) : Prop where
  lines_eq : (p.lines : Multiset Line) = lines
  closing_eq : p.closing = []
  asked_eq : p.asked = []
  unladen : ∀ t, p = .running t → t.Unladen

end Progress

namespace Task

variable {s : Settings} {now : Time} {isOpen : Line → Bool} {l : Ledger} {errand : Errand}
  {t : Task} {signal : Signal} {st : Step}

theorem unladen_of_not_creating (h : t.isCreating = false) : t.Unladen := by
  intro hcreating
  simp [h] at hcreating

theorem unladen_running {next : Task} (h : next.isCreating = false) :
    ∀ t, Progress.running next = .running t → t.Unladen := by
  rintro t ⟨⟩
  exact unladen_of_not_creating h

theorem quiet_created (herrand : errand.lines = []) (added : Bool) :
    (created s now l errand added).progress.Quiet [] := by
  unfold created
  split
  · cases added <;> exact ⟨rfl, rfl, rfl, unladen_running rfl⟩
  · exact ⟨rfl, rfl, rfl, unladen_running rfl⟩
  · exact ⟨rfl, rfl, rfl, by rintro t ⟨⟩⟩

theorem quiet_ready (errand : Errand) :
    (continuing l errand .ready .none).progress.Quiet errand.lines := by
  refine ⟨?_, rfl, ?_, unladen_running rfl⟩
  · simp [continuing, Progress.lines, lines, Doing.lines]
  · cases errand <;> rfl

theorem quiet_discarded (hfree : errand.isFree = true) (success : Bool) :
    (discarded s now l errand success).progress.Quiet errand.lines := by
  cases errand with
  | drain left tally => exact quiet_ready (.drain left (tally.count success))
  | renew left tally => exact quiet_ready (.renew left (tally.count success))
  | acquire deadline => exact quiet_ready (.acquire deadline)
  | replace wanted => exact quiet_ready (.replace wanted)
  | release m => simp [Errand.isFree] at hfree
  | ask m command => simp [Errand.isFree] at hfree
  | leave m => simp [Errand.isFree] at hfree
  | _ => exact quiet_created rfl false

theorem quiet_tryCreate (herrand : errand.lines = []) :
    (tryCreate s now l errand).progress.Quiet [] := by
  unfold tryCreate
  split
  · refine ⟨by simp [continuing, Progress.lines, lines, Doing.lines, Creation.lines, herrand], rfl,
      rfl, ?_⟩
    rintro t ⟨⟩
    exact fun _ => herrand
  · exact quiet_created herrand false

/-- What becomes of sessions when a task goes on. -/
structure Conserves (s : Settings) (isOpen : Line → Bool) (l : Ledger) (t : Task) (signal : Signal)
    (st : Step) : Prop where
  lines_eq : (Pool.lines l.idle + t.lines + signal.line?.toList : Multiset Line) =
    Pool.lines st.ledger.idle + st.progress.lines + t.ends isOpen
  closing_eq : (t.closing + (t.begins s isOpen signal).map (·.1) : Multiset Line) =
    st.progress.closing + t.ends isOpen
  asked_eq : ∀ line, st.progress.asked.count line = t.parts.count line +
    ((t.begins s isOpen signal).map fun b => if b.1 = line then b.2.calls else 0).sum
  unladen : ∀ next, st.progress = .running next → next.Unladen

/-- A step in which no teardown begins, ends or goes on. -/
theorem conserves_of_quiet {ls : List Line} (hquiet : st.progress.Quiet ls)
    (hlines : (Pool.lines l.idle + t.lines + signal.line?.toList : Multiset Line) =
      Pool.lines st.ledger.idle + ls)
    (hclosing : t.closing = []) (hbegins : t.begins s isOpen signal = [])
    (hends : t.ends isOpen = []) (hparts : t.parts = []) : t.Conserves s isOpen l signal st where
  lines_eq := by
    rw [hlines, hquiet.lines_eq, hends]
    simp
  closing_eq := by simp [hclosing, hbegins, hends, hquiet.closing_eq]
  asked_eq := by simp [hquiet.asked_eq, hparts, hbegins]
  unladen := hquiet.unladen

theorem conserves_of_ready {ls : List Line} (hquiet : st.progress.Quiet ls)
    (hlines : (Pool.lines l.idle + errand.lines : Multiset Line) = Pool.lines st.ledger.idle + ls)
    (herrand : ∀ m, errand ≠ .leave m) : Conserves s isOpen l ⟨errand, .ready⟩ .go st := by
  refine conserves_of_quiet hquiet ?_ rfl rfl rfl ?_
  · simpa [lines, Doing.lines, Signal.line?] using hlines
  · cases errand with
    | leave m => exact absurd rfl (herrand m)
    | _ => rfl

theorem quiet_continuing {doing : Doing} {ring : Ring} (hclosing : doing.isClosing = false)
    (hasked : (query? ⟨errand, doing⟩).bind Query.closed? = none)
    (hcreating : isCreating ⟨errand, doing⟩ = false) :
    (continuing l errand doing ring).progress.Quiet (errand.lines ++ doing.lines) := by
  refine ⟨rfl, ?_, ?_, unladen_running hcreating⟩
  · simp [continuing, Progress.closing, closing, hclosing]
  · simp [continuing, Progress.asked, hasked]

theorem quiet_finishing (o : Outcome) (ring : Ring) :
    (finishing l o ring).progress.Quiet o.lines :=
  ⟨rfl, rfl, rfl, by rintro t ⟨⟩⟩

theorem conserves_tryCreate (herrand : errand.lines = []) {errand' : Errand}
    (herrand' : errand'.lines = []) :
    Conserves s isOpen l ⟨errand', .ready⟩ .go (tryCreate s now l errand) := by
  refine conserves_of_ready (quiet_tryCreate herrand) ?_ ?_
  · rw [herrand', idle_tryCreate]
  · rintro m rfl
    simp [Errand.lines] at herrand'

theorem conserves_proceed (errand : Errand) :
    Conserves s isOpen l ⟨errand, .ready⟩ .go (proceed s now isOpen l errand) := by
  cases errand with
  | acquire deadline =>
    rcases l.take_cases isOpen with htake | htake | ⟨m, rest, hidle, htake | htake⟩
    · simp only [proceed, htake]
      exact conserves_of_ready (quiet_finishing _ _) rfl (by simp)
    · simp only [proceed, htake]
      split
      · exact conserves_of_ready (quiet_finishing _ _) rfl (by simp)
      · exact conserves_of_ready (quiet_continuing rfl rfl rfl) rfl (by simp)
    · simp only [proceed, htake]
      refine conserves_of_ready (quiet_finishing _ _) ?_ (by simp)
      rw [hidle, coe_lines_cons]
      exact add_zero _
    · simp only [proceed, htake]
      refine conserves_of_ready (quiet_continuing rfl rfl rfl) ?_ (by simp)
      rw [hidle, coe_lines_cons]
      exact add_zero _
  | grow deadline => exact conserves_tryCreate rfl rfl
  | release m =>
    rcases l.giveBack_cases s isOpen m with ⟨-, hback⟩ | ⟨replace, hback⟩
    · simp only [proceed, hback]
      refine conserves_of_ready (quiet_finishing _ _) ?_ (by simp)
      rw [ledger_finishing, coe_lines_append]
      exact (add_zero _).symm
    · simp only [proceed, hback]
      exact conserves_of_ready (quiet_continuing rfl rfl rfl) rfl (by simp)
  | replace wanted =>
    cases wanted with
    | true => exact conserves_tryCreate rfl rfl
    | false => exact conserves_of_ready (quiet_finishing _ _) rfl (by simp)
  | start => exact conserves_of_ready (quiet_continuing rfl rfl rfl) rfl (by simp)
  | fill left tally =>
    cases left with
    | zero => exact conserves_of_ready (quiet_finishing _ _) rfl (by simp)
    | succ left => exact conserves_tryCreate rfl rfl
  | stop =>
    refine conserves_of_ready (quiet_continuing rfl rfl rfl) ?_ (by simp)
    simp [proceed, continuing, Ledger.stop, Errand.lines, Doing.lines, Pool.lines]
  | drain left tally =>
    cases left with
    | nil => exact conserves_of_ready (quiet_finishing _ _) rfl (by simp)
    | cons m left =>
      refine conserves_of_ready (quiet_continuing rfl rfl rfl) ?_ (by simp)
      rw [Errand.lines, coe_lines_cons, ← Multiset.coe_add]
      rfl
  | restart =>
    refine conserves_of_ready (quiet_continuing rfl rfl rfl) ?_ (by simp)
    have hidle : (proceed s now isOpen l .restart).ledger.idle = [] := by
      rw [proceed, ledger_continuing, Ledger.flush_eq_strike]
      rfl
    rw [hidle]
    simp [Errand.lines, Doing.lines, Pool.lines]
  | renew left tally =>
    cases left with
    | nil => exact conserves_of_ready (quiet_continuing rfl rfl rfl) rfl (by simp)
    | cons m left =>
      refine conserves_of_ready (quiet_continuing rfl rfl rfl) ?_ (by simp)
      rw [Errand.lines, coe_lines_cons, ← Multiset.coe_add]
      rfl
  | ask m command =>
    simp only [proceed]
    split
    · exact conserves_of_ready (quiet_finishing _ _) rfl (by simp)
    · exact conserves_of_ready (quiet_continuing rfl (by cases command <;> rfl) rfl) rfl (by simp)
  | leave m =>
    refine ⟨?_, rfl, ?_, unladen_running rfl⟩
    · simp [proceed, continuing, Progress.lines, lines, Errand.lines, Doing.lines, ends, closing,
        Doing.isClosing, Signal.line?]
    · intro line
      simp [proceed, continuing, Progress.asked, query?, Query.closed?, parts, begins]

theorem conserves_settle (hunladen : errand.lines = []) (result : Except ExchangeError Member) :
    Conserves s isOpen l ⟨errand, .creating (.ended result)⟩ .go
      (settle s now l errand result) := by
  cases result with
  | error e =>
    refine conserves_of_quiet (quiet_created hunladen false) ?_ rfl rfl rfl rfl
    rw [settle, ledger_created, lines, hunladen]
    exact add_zero _
  | ok m =>
    cases hpublish : l.settle.publish m with
    | none =>
      simp only [settle, hpublish]
      refine conserves_of_quiet (quiet_continuing rfl rfl rfl) ?_ rfl rfl rfl rfl
      exact add_zero _
    | some l' =>
      simp only [settle, hpublish]
      have hquiet : (created s now l' errand true).progress.Quiet [] := quiet_created hunladen true
      obtain ⟨hlines, hclosing, hasked, hunladen'⟩ := hquiet
      refine conserves_of_quiet ⟨hlines, hclosing, hasked, hunladen'⟩ ?_ rfl rfl rfl rfl
      obtain rfl := Ledger.publish_eq_some hpublish
      rw [ledger_created, coe_lines_append, lines, hunladen]
      rfl

theorem lines_loginWith (m : Member) (rest : List Login) : (loginWith m rest).lines = [m.line] := by
  cases rest <;> rfl

theorem quiet_creating {c : Creation} (hclosing : (Doing.creating c).isClosing = false)
    (hunladen : errand.lines = []) :
    (continuing l errand (.creating c) .none).progress.Quiet c.lines := by
  refine ⟨?_, ?_, ?_, ?_⟩
  · simp [continuing, Progress.lines, lines, Doing.lines, hunladen]
  · simp [continuing, Progress.closing, closing, hclosing]
  · cases c with
    | closing m error limit => simp [Doing.isClosing] at hclosing
    | _ => rfl
  · rintro t ⟨⟩
    exact fun _ => hunladen

theorem isClosing_loginWith (m : Member) (rest : List Login) :
    (Doing.creating (loginWith m rest)).isClosing = false := by
  cases rest <;> rfl

/-- A login goes on or has succeeded, or has failed, and then the session is asked to close. -/
theorem conserves_login (hunladen : errand.lines = []) (m : Member) (request : Login)
    (rest : List Login) (r : Except ExchangeError Reply) (limit : Time) :
    Conserves s isOpen l ⟨errand, .creating (.loggingIn m request rest)⟩ (.replied r)
      (continuing l errand (.creating (match r.bind (Login.next s request rest) with
        | .ok rest => loginWith m rest
        | .error e => .closing m e limit)) .none) := by
  cases hnext : r.bind (Login.next s request rest) with
  | ok rest' =>
    refine conserves_of_quiet (quiet_creating (isClosing_loginWith m rest') hunladen) ?_ rfl ?_ rfl rfl
    · rw [lines_loginWith, lines, hunladen]
      exact add_zero _
    · simp [begins, hnext]
  | error e =>
    refine ⟨?_, ?_, ?_, ?_⟩
    · simp [continuing, Progress.lines, lines, Doing.lines, Creation.lines, Signal.line?, ends,
        closing, Doing.isClosing]
    · simp [continuing, Progress.closing, begins, hnext, ends, closing, Doing.isClosing,
        Doing.lines, Creation.lines]
    · intro line
      simp [continuing, Progress.asked, query?, Query.closed?, parts, begins, hnext, Ending.calls,
        List.count_singleton]
    · rintro t ⟨⟩
      exact fun _ => hunladen

/-- The teardown of a session whose login has failed is over. -/
theorem conserves_refused (hunladen : errand.lines = []) (m : Member) (error : ExchangeError)
    (limit : Time) {signal : Signal} (hsignal : signal.line? = none) :
    Conserves s isOpen l ⟨errand, .creating (.closing m error limit)⟩ signal
      (continuing l errand (.creating (.ended (.error error))) .none) := by
  have hbegins : begins s isOpen ⟨errand, .creating (.closing m error limit)⟩ signal = [] := by
    cases signal <;> rfl
  refine ⟨?_, ?_, ?_, ?_⟩
  · simp [continuing, Progress.lines, lines, Doing.lines, Creation.lines, hsignal, ends, closing,
      Doing.isClosing, hunladen]
  · simp [continuing, Progress.closing, hbegins, ends, closing, Doing.isClosing]
  · simp [continuing, Progress.asked, query?, parts, hbegins]
  · rintro t ⟨⟩
    exact fun _ => hunladen

theorem conserves_step_creating {c : Creation} (hunladen : errand.lines = [])
    (h : step s now isOpen l ⟨errand, .creating c⟩ signal = some st) :
    Conserves s isOpen l ⟨errand, .creating c⟩ signal st := by
  cases c with
  | connecting id =>
    cases signal with
    | connected line =>
      obtain rfl := Option.some.inj h
      refine conserves_of_quiet (quiet_creating (isClosing_loginWith _ _) hunladen) ?_ rfl rfl rfl rfl
      rw [lines_loginWith, lines, hunladen, ledger_continuing]
      simp [Doing.lines, Creation.lines, Signal.line?]
    | unconnected e =>
      obtain rfl := Option.some.inj h
      refine conserves_of_quiet (quiet_creating rfl hunladen) ?_ rfl rfl rfl rfl
      rw [lines, hunladen]
      exact add_zero _
    | _ => simp [step] at h
  | loggingIn m request rest =>
    cases signal with
    | replied r =>
      obtain rfl := Option.some.inj h
      exact conserves_login hunladen m request rest r _
    | _ => simp [step] at h
  | closing m error limit =>
    cases signal with
    | closed r =>
      obtain rfl := Option.some.inj h
      exact conserves_refused hunladen m error limit rfl
    | late =>
      simp only [step] at h
      split at h
      · obtain rfl := Option.some.inj h
        exact conserves_refused hunladen m error limit rfl
      · simp at h
    | _ => simp [step] at h
  | ended result =>
    cases signal with
    | go =>
      obtain rfl := Option.some.inj h
      exact conserves_settle hunladen result
    | _ => simp [step] at h

theorem conserves_step_discarding {m : Member} (hfree : errand.isFree = true)
    (h : step s now isOpen l ⟨errand, .discarding m⟩ signal = some st) :
    Conserves s isOpen l ⟨errand, .discarding m⟩ signal st := by
  cases signal with
  | go =>
    simp only [step] at h
    split at h
    · next hopen =>
      -- The session is asked to close, and the teardown goes on.
      obtain rfl := Option.some.inj h
      refine ⟨?_, ?_, ?_, unladen_running rfl⟩
      · simp [continuing, Progress.lines, lines, Doing.lines, Signal.line?, ends, hopen,
          Ledger.revoke]
      · simp [continuing, Progress.closing, begins, ends, hopen, closing, Doing.isClosing,
          Doing.lines]
      · intro line
        simp [continuing, Progress.asked, query?, Query.closed?, parts, begins, hopen, Ending.calls,
          List.count_singleton]
    · next hshut =>
      obtain rfl := Option.some.inj h
      have hquiet : (discarded s now (l.revoke m.id) errand true).progress.Quiet errand.lines :=
        quiet_discarded hfree true
      refine ⟨?_, ?_, ?_, hquiet.unladen⟩
      · rw [hquiet.lines_eq, ledger_discarded]
        simp only [lines, Doing.lines, Signal.line?, ends, hshut, Ledger.revoke, ← Multiset.coe_add,
          Option.toList_none, Multiset.coe_nil, add_zero, if_false, Bool.false_eq_true]
        exact (add_assoc _ _ _).symm
      · simp [hquiet.closing_eq, begins, ends, hshut, closing, Doing.isClosing]
      · simp [hquiet.asked_eq, parts, begins, hshut, Ending.calls]
  | _ => simp [step] at h

theorem conserves_closed (hfree : errand.isFree = true) (m : Member) (limit : Time) (success : Bool)
    {signal : Signal} (hsignal : signal.line? = none) :
    Conserves s isOpen l ⟨errand, .closing m limit⟩ signal (discarded s now l errand success) := by
  have hquiet : (discarded s now l errand success).progress.Quiet errand.lines :=
    quiet_discarded hfree success
  have hbegins : begins s isOpen ⟨errand, .closing m limit⟩ signal = [] := by
    cases signal <;> rfl
  refine ⟨?_, ?_, ?_, hquiet.unladen⟩
  · rw [hquiet.lines_eq, ledger_discarded]
    simp only [lines, Doing.lines, hsignal, ends, closing, Doing.isClosing, ← Multiset.coe_add,
      Option.toList_none, Multiset.coe_nil, add_zero, if_true]
    exact (add_assoc _ _ _).symm
  · simp [hquiet.closing_eq, hbegins, ends, closing, Doing.isClosing]
  · simp [hquiet.asked_eq, parts, hbegins]

theorem conserves_step_closing {m : Member} {limit : Time} (hfree : errand.isFree = true)
    (h : step s now isOpen l ⟨errand, .closing m limit⟩ signal = some st) :
    Conserves s isOpen l ⟨errand, .closing m limit⟩ signal st := by
  cases signal with
  | closed r =>
    obtain rfl := Option.some.inj h
    exact conserves_closed hfree m limit _ rfl
  | late =>
    simp only [step] at h
    split at h
    · obtain rfl := Option.some.inj h
      exact conserves_closed hfree m limit _ rfl
    · simp at h
  | _ => simp [step] at h

/-- A task that waits for something, and then has it. -/
theorem conserves_waiting {doing : Doing} {ls : List Line} (hquiet : st.progress.Quiet ls)
    (hdoing : doing.isBusy = false) (hready : doing ≠ .ready) (hledger : st.ledger = l)
    (hlines : errand.lines = ls) (hsignal : signal.line? = none) :
    Conserves s isOpen l ⟨errand, doing⟩ signal st := by
  refine conserves_of_quiet hquiet ?_ ?_ ?_ ?_ ?_
  · subst hlines hledger
    cases doing <;> simp_all [lines, Doing.lines, Doing.isBusy]
  · cases doing <;> simp_all [Doing.isBusy, closing, Doing.isClosing]
  · cases doing <;> simp_all [Doing.isBusy, begins]
  · cases doing <;> simp_all [Doing.isBusy, ends, closing, Doing.isClosing]
  · cases doing <;> simp_all [Doing.isBusy, parts]

theorem conserves_step_parked {limit : Time}
    (h : step s now isOpen l ⟨errand, .parked limit⟩ signal = some st) :
    Conserves s isOpen l ⟨errand, .parked limit⟩ signal st := by
  have hwoken {signal : Signal} (hsignal : signal.line? = none) :
      Conserves s isOpen l ⟨errand, .parked limit⟩ signal (continuing l errand .ready .none) :=
    conserves_waiting (quiet_ready errand) rfl (by simp) rfl rfl hsignal
  cases signal with
  | rung =>
    obtain rfl := Option.some.inj h
    exact hwoken rfl
  | late =>
    simp only [step] at h
    split at h
    · obtain rfl := Option.some.inj h
      exact hwoken rfl
    · simp at h
  | _ => simp [step] at h

theorem line_noted (m : Member) (r : Except ExchangeError Reply) : (noted m r).line = m.line := by
  cases r with
  | ok reply => rfl
  | error e => cases he : e.isFatal <;> simp [noted, he]

theorem conserves_step_asking (h : step s now isOpen l ⟨errand, .asking⟩ signal = some st) :
    Conserves s isOpen l ⟨errand, .asking⟩ signal st := by
  have hanswered (m : Member) (command : Option Command) (r r' : Except ExchangeError Reply)
      {signal : Signal} (hsignal : signal.line? = none) :
      Conserves s isOpen l ⟨.ask m command, .asking⟩ signal
        (finishing l (.answered (noted m r) r') .none) := by
    refine conserves_waiting (quiet_finishing _ _) rfl (by simp) rfl ?_ hsignal
    rw [Outcome.lines, line_noted, Errand.lines]
  cases signal with
  | replied r =>
    cases errand with
    | ask m command =>
      obtain rfl := Option.some.inj h
      exact hanswered m command r r rfl
    | _ => simp [step] at h
  | cut =>
    cases errand with
    | ask m command =>
      simp only [step] at h
      split at h
      · obtain rfl := Option.some.inj h
        exact hanswered m command _ _ rfl
      · simp at h
    | _ => simp [step] at h
  | _ => simp [step] at h

theorem conserves_step_leaving (h : step s now isOpen l ⟨errand, .leaving⟩ signal = some st) :
    Conserves s isOpen l ⟨errand, .leaving⟩ signal st := by
  cases signal with
  | closed r =>
    cases errand with
    | leave m =>
      obtain rfl := Option.some.inj h
      exact conserves_waiting (quiet_finishing _ _) rfl (by simp) rfl rfl rfl
    | _ => simp [step] at h
  | _ => simp [step] at h

theorem conserves_step (hproper : t.Proper) (hunladen : t.Unladen)
    (h : t.step s now isOpen l signal = some st) : t.Conserves s isOpen l signal st := by
  obtain ⟨errand, doing⟩ := t
  cases doing with
  | ready =>
    cases signal with
    | go =>
      obtain rfl := Option.some.inj h
      exact conserves_proceed errand
    | _ => simp [step] at h
  | creating c => exact conserves_step_creating (hunladen rfl) h
  | discarding m => exact conserves_step_discarding (hproper rfl) h
  | closing m limit => exact conserves_step_closing (hproper rfl) h
  | parked limit => exact conserves_step_parked h
  | asking => exact conserves_step_asking h
  | leaving => exact conserves_step_leaving h

/-! ## A task that is abandoned -/

/-- The sessions that are let go of with a task before their teardown has begun. -/
def dropped (t : Task) : List Line :=
  (if t.lent?.isSome then [] else t.errand.lines) ++ if t.doing.isClosing then [] else t.doing.lines

/-- The sessions of a task that is abandoned go back to their holders, or are let go of, some in the
midst of a teardown. -/
theorem lines_eq_of_abandon (t : Task) :
    (t.lines : Multiset Line) = Pool.lines t.lent?.toList + t.dropped + t.closing := by
  obtain ⟨errand, doing⟩ := t
  have hdoing : (doing.lines : Multiset Line) =
      (if doing.isClosing then [] else doing.lines : List Line) +
        (if doing.isClosing then doing.lines else [] : List Line) := by
    cases doing.isClosing <;> simp
  have herrand : errand.lines = Pool.lines (lent? ⟨errand, doing⟩).toList ++
      if (lent? ⟨errand, doing⟩).isSome then [] else errand.lines := by
    cases errand <;> rfl
  simp only [lines, dropped, closing, ← Multiset.coe_add]
  rw [hdoing]
  nth_rewrite 1 [herrand]
  rw [← Multiset.coe_add]
  abel

end Task

end FaxClient.Pool
