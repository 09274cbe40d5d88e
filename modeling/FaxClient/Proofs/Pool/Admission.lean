import FaxClient.Proofs.Control.Inquiry
import FaxClient.Proofs.Pool.Alone
import FaxClient.Proofs.Pool.Observation

/-!
# A login stops at the first failure

What a login asks for is fixed by the settings and by the first answer, which may want a password.
It asks for one thing after the other until something is refused, so the requests that are sent are
the longest part of the plan before the first refusal, with the refused one at its end.  The session
is opened if all is granted and no password was wanting; otherwise it is closed, once, and what the
creation comes to is why the login has failed, however the closing ends.

A creation takes a place in the ledger, and changes nothing else, before it asks for a session.  From
then on it leaves the ledger alone, whatever others do to it.  A login that has failed gives the
place back and changes nothing else.
-/

namespace FaxClient.Pool

open Control

namespace Login

def inquiry (q : Login) : Inquiry := ⟨q.command, fun r => q.accepted.contains r.code⟩

/-- Whether the first answer, to the name of the user, wants a password. -/
def wantsPassword (s : Settings) (answers : List (Except ExchangeError Reply)) : Bool :=
  s.username.isSome && match answers.head? with
    | some (.ok r) => r.code == passwordWanted
    | _ => false

/-- A password is wanted, and there is none. -/
def lacksPassword (s : Settings) (answers : List (Except ExchangeError Reply)) : Bool :=
  wantsPassword s answers && s.password.isNone

/-- What a login asks for after the name of the user, if nothing is refused. -/
def sequel (s : Settings) (answers : List (Except ExchangeError Reply)) : List Login :=
  if lacksPassword s answers then []
  else (if wantsPassword s answers then (s.password.map pass).toList else []) ++
    ((s.adminPassword.map admin).toList ++ (s.timezone.map tzone).toList)

def plan (s : Settings) (answers : List (Except ExchangeError Reply)) : List Login :=
  (s.username.map user).toList ++ sequel s answers

def inquiries (s : Settings) (answers : List (Except ExchangeError Reply)) : List Inquiry :=
  (plan s answers).map inquiry

/-- What is wrong with an answer that is not accepted. -/
def fault : Except ExchangeError Reply → ExchangeError
  | .error e => e
  | .ok r => .unexpected r

variable {s : Settings} {answers : List (Except ExchangeError Reply)} {done rest rest' : List Login}
  {request : Login} {a : Except ExchangeError Reply} {e : ExchangeError}

theorem plan_nil (s : Settings) : plan s [] = requests s := by
  simp [plan, sequel, lacksPassword, wantsPassword, requests]

theorem wantsPassword_concat (h : s.username = none ∨ answers ≠ [])
    (a : Except ExchangeError Reply) :
    wantsPassword s (answers ++ [a]) = wantsPassword s answers := by
  rcases h with h | h
  · simp [wantsPassword, h]
  · simp [wantsPassword, List.head?_append_of_ne_nil _ h]

/-- After the first answer the plan is fixed. -/
theorem plan_concat (h : s.username = none ∨ answers ≠ []) (a : Except ExchangeError Reply) :
    plan s (answers ++ [a]) = plan s answers ∧
      lacksPassword s (answers ++ [a]) = lacksPassword s answers := by
  have hwants := wantsPassword_concat h a
  have hlacks : lacksPassword s (answers ++ [a]) = lacksPassword s answers := by
    rw [lacksPassword, lacksPassword, hwants]
  exact ⟨by rw [plan, plan, sequel, sequel, hlacks, hwants], hlacks⟩

/-- These requests were granted, and those follow. -/
structure Stands (s : Settings) (answers : List (Except ExchangeError Reply))
    (done rest : List Login) : Prop where
  plan_eq : plan s answers = done ++ rest
  length_eq : done.length = answers.length
  agreed : Inquiry.agreed (done.map inquiry) answers = true
  not_lacking : lacksPassword s answers = false

/-- The last of these requests has failed. -/
structure Refused (s : Settings) (answers : List (Except ExchangeError Reply)) (sent : List Login)
    (e : ExchangeError) : Prop where
  said_eq : Inquiry.said (inquiries s answers) answers = sent.map command
  length_eq : sent.length = answers.length
  not_granted :
    (Inquiry.agreed (inquiries s answers) answers && !lacksPassword s answers) = false
  error_eq : if lacksPassword s answers then e = passwordMissing
    else ∃ a, answers.getLast? = some a ∧ e = fault a

theorem stands_nil (s : Settings) : Stands s [] [] (requests s) :=
  ⟨plan_nil s, rfl, rfl, by simp [lacksPassword, wantsPassword]⟩

theorem Stands.said_eq (h : Stands s answers done rest) :
    Inquiry.said (inquiries s answers) answers = (done ++ rest.head?.toList).map command := by
  have hsaid : Inquiry.said (rest.map inquiry) [] = rest.head?.toList.map command := by
    cases rest <;> simp [Inquiry.said, Inquiry.goesOn, inquiry]
  have hdone : Inquiry.said (done.map inquiry) answers = done.map command := by
    rw [Inquiry.said_of_agreed h.agreed]
    simp [Function.comp_def, inquiry]
  calc Inquiry.said (inquiries s answers) answers
    _ = Inquiry.said (done.map inquiry ++ rest.map inquiry) answers := by
      rw [inquiries, h.plan_eq, List.map_append]
    _ = Inquiry.said (done.map inquiry) answers ++ Inquiry.said (rest.map inquiry) [] := by
      rw [Inquiry.said_append_of_agreed h.agreed, List.length_map, h.length_eq, List.drop_length]
    _ = (done ++ rest.head?.toList).map command := by rw [hdone, hsaid, List.map_append]

theorem user_notMem_sequel (name : String) : user name ∉ sequel s answers := by
  unfold sequel
  split
  · simp
  · cases s.password <;> cases s.adminPassword <;> cases s.timezone <;> split <;> simp

/-- The name of the user is asked for first, if at all. -/
theorem Stands.ne_user (h : Stands s answers done (request :: rest))
    (hfixed : s.username = none ∨ answers ≠ []) (name : String) : request ≠ user name := by
  rintro rfl
  have hplan := h.plan_eq
  have hnotMem : user name ∉ sequel s answers := user_notMem_sequel name
  refine hnotMem ?_
  cases husername : s.username with
  | none =>
    rw [plan, husername] at hplan
    simp only [Option.map_none, Option.toList_none, List.nil_append] at hplan
    simp [hplan]
  | some name' =>
    have hanswers : answers ≠ [] := hfixed.resolve_left (by simp [husername])
    rw [plan, husername] at hplan
    cases done with
    | nil => exact absurd (List.eq_nil_of_length_eq_zero h.length_eq.symm) hanswers
    | cons first done =>
      obtain ⟨-, hsequel⟩ : _ ∧ sequel s answers = done ++ user name :: rest := by
        simpa using hplan
      simp [hsequel]

/-! ## One answer -/

theorem goesOn_inquiry (request : Login) (reply : Reply) :
    request.inquiry.goesOn (some (.ok reply)) = (reply.expect request.accepted).isOk :=
  (Script.isOk_expect reply request.accepted).symm

theorem next_of_ne_user (h : ∀ name, request ≠ user name) (rest : List Login) (reply : Reply) :
    next s request rest reply = (reply.expect request.accepted).map fun _ => rest := by
  unfold next
  cases request with
  | user name => exact absurd rfl (h name)
  | _ => cases reply.expect _ <;> rfl

theorem agreed_append_answers {qs : List Inquiry} {more : List (Except ExchangeError Reply)}
    (h : qs.length = answers.length) :
    Inquiry.agreed qs (answers ++ more) = Inquiry.agreed qs answers := by
  induction qs generalizing answers with
  | nil => rfl
  | cons q qs ih =>
    cases answers with
    | nil => simp at h
    | cons a answers =>
      rw [List.cons_append, Inquiry.agreed, Inquiry.agreed]
      simp only [List.head?_cons, List.tail_cons]
      rw [ih (by simpa using h)]

theorem Stands.agreed_concat (h : Stands s answers done rest) (request : Login)
    (a : Except ExchangeError Reply) :
    Inquiry.agreed ((done ++ [request]).map inquiry) (answers ++ [a]) =
      request.inquiry.goesOn (some a) := by
  have hlength : (done.map inquiry).length = answers.length := by
    rw [List.length_map, h.length_eq]
  calc Inquiry.agreed ((done ++ [request]).map inquiry) (answers ++ [a])
    _ = (Inquiry.agreed (done.map inquiry) answers &&
        Inquiry.agreed ([request].map inquiry) [a]) := by
      rw [List.map_append, Inquiry.agreed_append, agreed_append_answers hlength, hlength,
        List.drop_left]
    _ = request.inquiry.goesOn (some a) := by simp [h.agreed, Inquiry.agreed]

/-- The answer to the name of the user decides on the rest of the plan. -/
theorem Stands.first (h : Stands s [] done (request :: rest)) {name : String}
    (husername : s.username = some name) : done = [] ∧ request = user name ∧
      rest = (s.adminPassword.map admin).toList ++ (s.timezone.map tzone).toList := by
  have hdone : done = [] := List.eq_nil_of_length_eq_zero h.length_eq
  have hplan := h.plan_eq
  subst hdone
  have hsequel : sequel s [] =
      (s.adminPassword.map admin).toList ++ (s.timezone.map tzone).toList := by
    simp [sequel, lacksPassword, wantsPassword]
  rw [plan, husername, hsequel] at hplan
  simp only [Option.map_some, Option.toList_some, List.cons_append, List.nil_append,
    List.cons.injEq] at hplan
  exact ⟨rfl, hplan.1.symm, hplan.2.symm⟩

theorem expect_eq_error {r : Reply} {codes : List Nat} (h : r.expect codes = .error e) :
    e = .unexpected r := by
  unfold Reply.expect at h
  split at h <;> simp_all

theorem next_user {name : String} {reply : Reply}
    (hexpect : reply.expect (user name).accepted = .ok reply) :
    Login.next s (user name) rest reply =
      if reply.code = passwordWanted then
        match s.password with
        | some password => .ok (pass password :: rest)
        | none => .error passwordMissing
      else .ok rest := by
  simp only [Login.next, hexpect, bind, Except.bind]
  rfl

theorem wantsPassword_first {name : String} (husername : s.username = some name) (reply : Reply) :
    wantsPassword s [.ok reply] = decide (reply.code = passwordWanted) := by
  simp [wantsPassword, husername, beq_eq_decide]

theorem Stands.next (h : Stands s answers done (request :: rest))
    (hnext : a.bind (Login.next s request rest) = .ok rest') :
    Stands s (answers ++ [a]) (done ++ [request]) rest' := by
  obtain ⟨reply, rfl, hreply⟩ : ∃ reply, a = .ok reply ∧
      Login.next s request rest reply = .ok rest' := by
    cases a with
    | error e => simp [Except.bind] at hnext
    | ok reply => exact ⟨reply, rfl, hnext⟩
  obtain ⟨reply', hexpect⟩ : ∃ reply', reply.expect request.accepted = .ok reply' := by
    cases hexpect : reply.expect request.accepted with
    | ok reply' => exact ⟨reply', rfl⟩
    | error e => simp [Login.next, hexpect, bind, Except.bind] at hreply
  obtain ⟨rfl, -⟩ := Reply.expect_eq_ok_iff.mp hexpect
  have hagreed : Inquiry.agreed ((done ++ [request]).map inquiry) (answers ++ [.ok reply]) =
      true := by
    rw [h.agreed_concat, goesOn_inquiry, hexpect]
    rfl
  have hlength : (done ++ [request]).length = (answers ++ [Except.ok reply]).length := by
    simp [h.length_eq]
  by_cases hfixed : s.username = none ∨ answers ≠ []
  · obtain ⟨hplan, hlacks⟩ := plan_concat hfixed (.ok reply)
    rw [next_of_ne_user (h.ne_user hfixed), hexpect] at hreply
    obtain rfl : rest = rest' := by simpa [Except.map] using hreply
    exact ⟨by rw [hplan, h.plan_eq]; simp, hlength, hagreed, hlacks.trans h.not_lacking⟩
  · -- The first answer decides whether the password is asked for.
    obtain ⟨husername, rfl⟩ : s.username ≠ none ∧ answers = [] := by simpa using hfixed
    obtain ⟨name, hname⟩ := Option.ne_none_iff_exists'.mp husername
    obtain ⟨rfl, rfl, rfl⟩ := h.first hname
    rw [next_user hexpect] at hreply
    have hwants := wantsPassword_first hname reply
    split at hreply
    · next hcode =>
      cases hpassword : s.password with
      | none => simp [hpassword] at hreply
      | some password =>
        rw [hpassword] at hreply
        obtain rfl := Except.ok.inj hreply
        refine ⟨?_, hlength, hagreed, by simp [lacksPassword, hpassword]⟩
        simp [plan, sequel, lacksPassword, hwants, hcode, hname, hpassword]
    · next hcode =>
      obtain rfl := Except.ok.inj hreply
      refine ⟨?_, hlength, hagreed, by simp [lacksPassword, hwants, hcode]⟩
      simp [plan, sequel, lacksPassword, hwants, hcode, hname]

/-- An answer that is not accepted does not change the plan. -/
theorem Stands.plan_concat_of_not_goesOn (h : Stands s answers done (request :: rest))
    (hstops : request.inquiry.goesOn (some a) = false) :
    plan s (answers ++ [a]) = done ++ request :: rest ∧
      lacksPassword s (answers ++ [a]) = false := by
  by_cases hfixed : s.username = none ∨ answers ≠ []
  · obtain ⟨hplan, hlacks⟩ := plan_concat hfixed a
    exact ⟨hplan.trans h.plan_eq, hlacks.trans h.not_lacking⟩
  · obtain ⟨husername, rfl⟩ : s.username ≠ none ∧ answers = [] := by simpa using hfixed
    obtain ⟨name, hname⟩ := Option.ne_none_iff_exists'.mp husername
    obtain ⟨rfl, rfl, rfl⟩ := h.first hname
    have hwants : wantsPassword s [a] = false := by
      cases a with
      | error e => simp [wantsPassword]
      | ok reply =>
        rw [wantsPassword_first hname, decide_eq_false_iff_not]
        intro hcode
        simp [Inquiry.goesOn, inquiry, accepted, hcode] at hstops
    simp [plan, sequel, lacksPassword, hwants, hname]

theorem Stands.refused_of_lacksPassword (h : Stands s [] done (request :: rest)) {name : String}
    {reply : Reply} (hname : s.username = some name) (hpassword : s.password = none)
    (hcode : reply.code = passwordWanted) :
    Refused s [.ok reply] (done ++ [request]) passwordMissing := by
  obtain ⟨rfl, rfl, -⟩ := h.first hname
  have hlacks : lacksPassword s [.ok reply] = true := by
    simp [lacksPassword, wantsPassword_first hname, hcode, hpassword]
  have hplan : plan s [.ok reply] = [user name] := by simp [plan, sequel, hlacks, hname]
  refine ⟨?_, rfl, by simp [hlacks], ?_⟩
  · rw [inquiries, hplan, List.map_cons, List.map_nil, Inquiry.said, Inquiry.said_nil, ite_self]
    rfl
  · rw [hlacks, if_pos rfl]

theorem Stands.refused_of_not_goesOn (h : Stands s answers done (request :: rest))
    (hstops : request.inquiry.goesOn (some a) = false) :
    Refused s (answers ++ [a]) (done ++ [request]) (fault a) := by
  obtain ⟨hplan, hlacks⟩ := h.plan_concat_of_not_goesOn hstops
  have hlength : (done.map inquiry).length = answers.length := by
    rw [List.length_map, h.length_eq]
  have hdone : Inquiry.agreed (done.map inquiry) (answers ++ [a]) = true := by
    rw [agreed_append_answers hlength, h.agreed]
  have hinquiries : inquiries s (answers ++ [a]) =
      done.map inquiry ++ (request :: rest).map inquiry := by
    rw [inquiries, hplan, List.map_append]
  have hleft : (answers ++ [a]).drop (done.map inquiry).length = [a] := by
    rw [hlength, List.drop_left]
  refine ⟨?_, by simp [h.length_eq], ?_, ?_⟩
  · calc Inquiry.said (inquiries s (answers ++ [a])) (answers ++ [a])
      _ = (done.map inquiry).map (·.command) ++
          Inquiry.said ((request :: rest).map inquiry) [a] := by
        rw [hinquiries, Inquiry.said_append_of_agreed hdone, Inquiry.said_of_agreed hdone, hleft]
      _ = (done ++ [request]).map command := by
        rw [List.map_cons, Inquiry.said, List.head?_cons, hstops]
        simp [inquiry, Function.comp_def]
  · rw [hinquiries, Inquiry.agreed_append, hleft]
    simp [Inquiry.agreed, hstops]
  · rw [hlacks, if_neg Bool.false_ne_true]
    exact ⟨a, by simp, rfl⟩

/-- What becomes of a login when one of its requests has failed. -/
theorem Stands.refused (h : Stands s answers done (request :: rest))
    (hnext : a.bind (Login.next s request rest) = .error e) :
    Refused s (answers ++ [a]) (done ++ [request]) e := by
  cases a with
  | error e' =>
    obtain rfl := Except.error.inj hnext
    exact h.refused_of_not_goesOn rfl
  | ok reply =>
    have hreply : Login.next s request rest reply = .error e := hnext
    cases hexpect : reply.expect request.accepted with
    | error e' =>
      obtain rfl : e' = e := by
        simpa [Login.next, hexpect, bind, Except.bind] using hreply
      obtain rfl := expect_eq_error hexpect
      refine h.refused_of_not_goesOn ?_
      rw [goesOn_inquiry, hexpect]
      rfl
    | ok reply' =>
      -- Only the name of the user can be accepted and lead nowhere.
      obtain ⟨rfl, -⟩ := Reply.expect_eq_ok_iff.mp hexpect
      by_cases hfixed : s.username = none ∨ answers ≠ []
      · rw [next_of_ne_user (h.ne_user hfixed), hexpect] at hreply
        simp [Except.map] at hreply
      · obtain ⟨husername, rfl⟩ : s.username ≠ none ∧ answers = [] := by simpa using hfixed
        obtain ⟨name, hname⟩ := Option.ne_none_iff_exists'.mp husername
        obtain ⟨-, rfl, -⟩ := h.first hname
        rw [next_user hexpect] at hreply
        split at hreply
        · next hcode =>
          cases hpassword : s.password with
          | some password => simp [hpassword] at hreply
          | none =>
            rw [hpassword] at hreply
            obtain rfl := Except.error.inj hreply
            exact h.refused_of_lacksPassword hname hpassword hcode
        · simp at hreply

end Login

/-! ## A place for a session -/

/-- The member for which a session is asked for. -/
def Task.connecting? (t : Task) : Option MemberId :=
  match t.doing with
  | .creating (.connecting id) => some id
  | _ => none

def Progress.connecting? : Progress → Option MemberId
  | .running t => t.connecting?
  | .finished _ => none

namespace Task

variable {s : Settings} {now : Time} {isOpen : Line → Bool} {l : Ledger} {errand : Errand}
  {id : MemberId} {t : Task} {signal : Signal} {st : Step}

theorem connecting?_created (added : Bool) :
    (created s now l errand added).progress.connecting? = none := by
  unfold created
  split
  · cases added <;> rfl
  · rfl
  · rfl

theorem connecting?_discarded (success : Bool) :
    (discarded s now l errand success).progress.connecting? = none := by
  unfold discarded
  split
  · rfl
  · rfl
  · rfl
  · rfl
  · exact connecting?_created false

theorem reserve_of_tryCreate
    (h : (tryCreate s now l errand).progress.connecting? = some id) :
    l.reserve s = some (id, (tryCreate s now l errand).ledger) := by
  unfold tryCreate at h ⊢
  cases hreserve : l.reserve s with
  | none =>
    simp only [hreserve] at h
    rw [connecting?_created] at h
    simp at h
  | some p =>
    obtain ⟨id', l'⟩ := p
    simp only [hreserve] at h ⊢
    obtain rfl : id' = id := Option.some.inj h
    rfl

theorem reserve_of_proceed
    (h : (proceed s now isOpen l errand).progress.connecting? = some id) :
    l.reserve s = some (id, (proceed s now isOpen l errand).ledger) := by
  cases errand with
  | grow deadline => exact reserve_of_tryCreate h
  | replace wanted =>
    cases wanted with
    | true => exact reserve_of_tryCreate h
    | false => simp [proceed, finishing, Progress.connecting?] at h
  | fill left tally =>
    cases left with
    | succ left => exact reserve_of_tryCreate h
    | zero => simp [proceed, finishing, Progress.connecting?] at h
  | acquire deadline =>
    simp only [proceed] at h
    split at h
    · simp [finishing, Progress.connecting?] at h
    · simp [finishing, Progress.connecting?] at h
    · simp [continuing, Progress.connecting?, connecting?] at h
    · split at h <;> simp [finishing, continuing, Progress.connecting?, connecting?] at h
  | release m =>
    simp only [proceed] at h
    split at h <;> simp [finishing, continuing, Progress.connecting?, connecting?] at h
  | drain left tally =>
    cases left <;> simp [proceed, finishing, continuing, Progress.connecting?, connecting?] at h
  | renew left tally =>
    cases left <;> simp [proceed, continuing, Progress.connecting?, connecting?] at h
  | ask m command =>
    simp only [proceed] at h
    split at h <;> simp [finishing, continuing, Progress.connecting?, connecting?] at h
  | _ => simp [proceed, continuing, Progress.connecting?, connecting?] at h

theorem connecting?_loginWith (m : Member) (requests : List Login) :
    connecting? ⟨errand, .creating (loginWith m requests)⟩ = none := by
  cases requests <;> rfl

/-- A session is asked for only once there is a place for it. -/
theorem reserve_of_step (hstep : t.step s now isOpen l signal = some st)
    (h : st.progress.connecting? = some id) : l.reserve s = some (id, st.ledger) := by
  have hnever (hnone : st.progress.connecting? = none) : l.reserve s = some (id, st.ledger) := by
    simp [hnone] at h
  cases stepped hstep with
  | proceed errand => exact reserve_of_proceed h
  | create errand c c' hc =>
    refine hnever ?_
    cases c with
    | connecting id =>
      cases signal with
      | connected line =>
        obtain rfl : loginWith ⟨id, line, false, true⟩ (Login.requests s) = c' := by
          simpa [step, continuing] using hstep
        exact connecting?_loginWith _ _
      | unconnected e =>
        obtain rfl : Creation.ended (.error e) = c' := by simpa [step, continuing] using hstep
        rfl
      | _ => simp [step] at hstep
    | loggingIn m request rest =>
      cases signal with
      | replied r =>
        simp only [step, continuing, Option.some.injEq, Step.mk.injEq, Progress.running.injEq,
          Task.mk.injEq, Doing.creating.injEq, true_and] at hstep
        subst hstep
        split
        · exact connecting?_loginWith _ _
        · rfl
      | _ => simp [step] at hstep
    | closing m e limit =>
      cases signal with
      | closed r =>
        obtain rfl : Creation.ended (.error e) = c' := by simpa [step, continuing] using hstep
        rfl
      | late =>
        obtain ⟨-, rfl⟩ : limit ≤ now ∧ Creation.ended (.error e) = c' := by
          simpa [step, continuing] using hstep
        rfl
      | _ => simp [step] at hstep
    | ended result => exact absurd rfl (hc result)
  | settle errand result =>
    refine hnever ?_
    cases result with
    | error e => exact connecting?_created false
    | ok m =>
      simp only [settle]
      split
      · rfl
      · exact connecting?_created true
  | discard errand m => exact hnever (connecting?_discarded true)
  | closed errand m limit success => exact hnever (connecting?_discarded success)
  | _ => exact hnever rfl

end Task

/-! ## The moves of a task -/

/-- A step of a task as the world sees it: the signal, what is asked from then on, and the ledger
before and after. -/
structure Move where
  heard : Signal
  asked : List Query
  found : Ledger
  left : Ledger

def World.move (w : World) (signal : Signal) (w' : World) : Move :=
  ⟨signal, w'.asked.drop w.asked.length, w.ledger, w'.ledger⟩

/-- What one task does in the course of a run. -/
def World.moves (s : Settings) (t : TaskId) (w : World) (actions : List Action) : List Move :=
  trail (fun w signal w' => [w.move signal w']) s t w actions

def Query.sends (line : Line) (requests : List Login) : List Query :=
  requests.map fun q => .send line q.command

variable {s : Settings} {now : Time} {isOpen : Line → Bool} {l : Ledger} {errand : Errand}
  {id : MemberId} {line : Line} {past : List Move} {c : Creation}
  {answers : List (Except ExchangeError Reply)} {asked asked' : List Query} {signal : Signal}
  {st : Step}

/-- Since a session was connected these answers were heard, these queries were made, and the ledger
was left alone. -/
structure Heard (line : Line) (answers : List (Except ExchangeError Reply)) (farewell : List Signal)
    (asked : List Query) (past : List Move) : Prop where
  heard_eq : past.map (·.heard) = .connected line :: answers.map .replied ++ farewell
  asked_eq : past.flatMap (·.asked) = asked
  kept : ∀ move ∈ past, move.left = move.found

theorem heard_connected (line : Line) (l : Ledger) (asked : List Query) :
    Heard line [] [] asked [⟨.connected line, asked, l, l⟩] :=
  ⟨rfl, by simp, by simp⟩

theorem Heard.replied (h : Heard line answers [] asked past) (r : Except ExchangeError Reply)
    (l : Ledger) (asked' : List Query) :
    Heard line (answers ++ [r]) [] (asked ++ asked') (past ++ [⟨.replied r, asked', l, l⟩]) where
  heard_eq := by simp [h.heard_eq]
  asked_eq := by simp [h.asked_eq]
  kept := by simpa [or_imp, forall_and] using h.kept

theorem Heard.farewell (h : Heard line answers [] asked past) (signal : Signal) (l : Ledger) :
    Heard line answers [signal] asked (past ++ [⟨signal, [], l, l⟩]) where
  heard_eq := by simp [h.heard_eq]
  asked_eq := by simp [h.asked_eq]
  kept := by simpa [or_imp, forall_and] using h.kept

/-- What is heard of a session after the last answer: if the login has failed, the session says
goodbye, or does not in time. -/
inductive Farewell : Except ExchangeError Member → List Signal → Prop
  | none (m : Member) : Farewell (.ok m) []
  | closed (e : ExchangeError) (r : Except ExchangeError Unit) : Farewell (.error e) [.closed r]
  | late (e : ExchangeError) : Farewell (.error e) [.late]

/-- A session was connected for a creation, and this is how far the login has come. -/
inductive Logs (s : Settings) (id : MemberId) (line : Line) (past : List Move) : Creation → Prop
  | loggingIn {answers : List (Except ExchangeError Reply)} {done rest : List Login}
      {request : Login} (h : Login.Stands s answers done (request :: rest))
      (hpast : Heard line answers [] (Query.sends line (done ++ [request])) past) :
      Logs s id line past (.loggingIn ⟨id, line, false, true⟩ request rest)
  | opened {answers : List (Except ExchangeError Reply)} {done : List Login}
      (h : Login.Stands s answers done [])
      (hpast : Heard line answers [] (Query.sends line done) past) :
      Logs s id line past (.ended (.ok ⟨id, line, false, true⟩))
  | closing {answers : List (Except ExchangeError Reply)} {sent : List Login} {e : ExchangeError}
      {limit : Time} (h : Login.Refused s answers sent e)
      (hpast : Heard line answers [] (Query.sends line sent ++ [.close line]) past) :
      Logs s id line past (.closing ⟨id, line, false, true⟩ e limit)
  | failed {answers : List (Except ExchangeError Reply)} {sent : List Login} {e : ExchangeError}
      {farewell : List Signal} (hfarewell : Farewell (.error e) farewell)
      (h : Login.Refused s answers sent e)
      (hpast : Heard line answers farewell (Query.sends line sent ++ [.close line]) past) :
      Logs s id line past (.ended (.error e))

def Creation.asks (c : Creation) : List Query := (Task.query? ⟨.start, .creating c⟩).toList

theorem asks_eq (errand : Errand) (c : Creation) :
    (Task.query? ⟨errand, .creating c⟩).toList = c.asks := by
  cases c <;> rfl

theorem logs_loginWith {done rest : List Login} (h : Login.Stands s answers done rest)
    (hpast : Heard line answers [] (Query.sends line done ++
      (Task.loginWith ⟨id, line, false, true⟩ rest).asks) past) :
    Logs s id line past (Task.loginWith ⟨id, line, false, true⟩ rest) := by
  cases rest with
  | nil =>
    have hasks : (Task.loginWith ⟨id, line, false, true⟩ []).asks = [] := rfl
    rw [hasks, List.append_nil] at hpast
    exact .opened h hpast
  | cons request rest =>
    have hasks : Query.sends line done ++
        (Task.loginWith ⟨id, line, false, true⟩ (request :: rest)).asks =
          Query.sends line (done ++ [request]) := by
      rw [Query.sends, Query.sends, List.map_append]
      rfl
    rw [hasks] at hpast
    exact .loggingIn h hpast

/-- A login goes on by one answer, or ends. -/
theorem Logs.step (h : Logs s id line past c)
    (hstep : Task.step s now isOpen l ⟨errand, .creating c⟩ signal = some st)
    (hsignal : signal ≠ .go) :
    ∃ c', st = Task.continuing l errand (.creating c') .none ∧
      Logs s id line (past ++ [⟨signal, c'.asks, l, l⟩]) c' := by
  cases h with
  | @loggingIn answers done rest request h hpast =>
    cases signal with
    | replied r =>
      obtain rfl := Option.some.inj hstep
      cases hnext : r.bind (Login.next s request rest) with
      | ok rest' => exact ⟨_, rfl, logs_loginWith (h.next hnext) (hpast.replied r l _)⟩
      | error e => exact ⟨_, rfl, .closing (h.refused hnext) (hpast.replied r l _)⟩
    | _ => simp [Task.step] at hstep
  | opened h hpast =>
    cases signal with
    | go => exact absurd rfl hsignal
    | _ => simp [Task.step] at hstep
  | @closing answers sent e limit h hpast =>
    cases signal with
    | closed r =>
      obtain rfl := Option.some.inj hstep
      exact ⟨_, rfl, .failed (.closed e r) h (hpast.farewell _ l)⟩
    | late =>
      simp only [Task.step] at hstep
      split at hstep
      · obtain rfl := Option.some.inj hstep
        exact ⟨_, rfl, .failed (.late e) h (hpast.farewell _ l)⟩
      · simp at hstep
    | _ => simp [Task.step] at hstep
  | failed hfarewell h hpast =>
    cases signal with
    | go => exact absurd rfl hsignal
    | _ => simp [Task.step] at hstep

/-- A creation since it asked for a session. -/
inductive Creates (s : Settings) (id : MemberId) (past : List Move) (c : Creation) : Prop
  | connecting (hpast : past = []) (hc : c = .connecting id)
  | unconnected (e : ExchangeError) (hpast : past.map (·.heard) = [.unconnected e])
      (hc : c = .ended (.error e))
  | connected (line : Line) (h : Logs s id line past c)

theorem Creates.step (h : Creates s id past c)
    (hstep : Task.step s now isOpen l ⟨errand, .creating c⟩ signal = some st)
    (hsignal : signal ≠ .go) :
    ∃ c', st = Task.continuing l errand (.creating c') .none ∧
      Creates s id (past ++ [⟨signal, c'.asks, l, l⟩]) c' := by
  cases h with
  | connecting hpast hc =>
    subst hpast hc
    cases signal with
    | connected line =>
      obtain rfl := Option.some.inj hstep
      exact ⟨_, rfl, .connected line
        (logs_loginWith (Login.stands_nil s) (heard_connected line l _))⟩
    | unconnected e =>
      obtain rfl := Option.some.inj hstep
      exact ⟨_, rfl, .unconnected e rfl rfl⟩
    | _ => simp [Task.step] at hstep
  | unconnected e hpast hc =>
    subst hc
    cases signal with
    | go => exact absurd rfl hsignal
    | _ => simp [Task.step] at hstep
  | connected line h =>
    obtain ⟨c', hst, h'⟩ := h.step hstep hsignal
    exact ⟨c', hst, .connected line h'⟩

/-- How a login has gone that has come to its end, over a session that was connected for it. -/
structure LoggedIn (s : Settings) (id : MemberId) (line : Line) (moves : List Move)
    (answers : List (Except ExchangeError Reply)) (result : Except ExchangeError Member) :
    Prop where
  heard_eq : ∃ farewell, Farewell result farewell ∧
    moves.map (·.heard) = .connected line :: answers.map .replied ++ farewell
  /-- The session is asked what is said, and is asked to close once if the login has failed. -/
  asked_eq : moves.flatMap (·.asked) =
    (Inquiry.said (Login.inquiries s answers) answers).map (.send line) ++
      if result.isOk then [] else [.close line]
  answered : answers.length = (Inquiry.said (Login.inquiries s answers) answers).length
  planned : Inquiry.said (Login.inquiries s answers) answers <+:
    (Login.plan s answers).map Login.command
  accepted : ∀ i q, i + 1 < answers.length → (Login.plan s answers)[i]? = some q →
    q.inquiry.goesOn answers[i]? = true
  brokenOff : ∀ i q, answers.length = i + 1 → (Login.plan s answers)[i]? = some q →
    i + 1 < (Login.plan s answers).length → q.inquiry.goesOn answers[i]? = false
  isOk_eq : result.isOk =
    (Inquiry.agreed (Login.inquiries s answers) answers && !Login.lacksPassword s answers)
  member_eq : ∀ m, result = .ok m → m = ⟨id, line, false, true⟩
  /-- The error is that of the login, however the session was closed. -/
  error_eq : ∀ e, result = .error e →
    if Login.lacksPassword s answers then e = Login.passwordMissing
    else ∃ a, answers.getLast? = some a ∧ e = Login.fault a
  kept : ∀ move ∈ moves, move.left = move.found

theorem sends_eq (line : Line) (requests : List Login) :
    Query.sends line requests = (requests.map Login.command).map (.send line) := by
  simp [Query.sends]

theorem said_isPrefix_plan (s : Settings) (answers : List (Except ExchangeError Reply)) :
    Inquiry.said (Login.inquiries s answers) answers <+:
      (Login.plan s answers).map Login.command := by
  have hprefix := Inquiry.said_isPrefix (Login.inquiries s answers) answers
  rw [Login.inquiries, List.map_map] at hprefix
  exact hprefix

section

variable {sent : List Login} (hsaid : Inquiry.said (Login.inquiries s answers) answers =
  sent.map Login.command) (hlength : sent.length = answers.length)

include hsaid hlength

theorem goesOn_of_lt (i : ℕ) (q : Login) (hi : i + 1 < answers.length)
    (hq : (Login.plan s answers)[i]? = some q) : q.inquiry.goesOn answers[i]? = true := by
  have hlt : i + 1 < (Inquiry.said (Login.inquiries s answers) answers).length := by
    rw [hsaid, List.length_map, hlength]
    exact hi
  exact Inquiry.goesOn_of_lt_length_said hlt (by simp [Login.inquiries, hq])

theorem not_goesOn_of_lt (i : ℕ) (q : Login) (hi : answers.length = i + 1)
    (hq : (Login.plan s answers)[i]? = some q) (hmore : i + 1 < (Login.plan s answers).length) :
    q.inquiry.goesOn answers[i]? = false := by
  have heq : (Inquiry.said (Login.inquiries s answers) answers).length = i + 1 := by
    rw [hsaid, List.length_map, hlength, hi]
  exact Inquiry.not_goesOn_of_length_said heq (by simp [Login.inquiries, hq])
    (by simpa [Login.inquiries] using hmore)

end

theorem Logs.loggedIn {result : Except ExchangeError Member}
    (h : Logs s id line past (.ended result)) :
    ∃ answers, LoggedIn s id line past answers result := by
  cases h with
  | @opened answers done h hpast =>
    have hsaid : Inquiry.said (Login.inquiries s answers) answers = done.map Login.command := by
      simpa using h.said_eq
    have hagreed : Inquiry.agreed (Login.inquiries s answers) answers = true := by
      have hplan : Login.plan s answers = done := by simpa using h.plan_eq
      rw [Login.inquiries, hplan, h.agreed]
    refine ⟨answers, ⟨[], .none _, hpast.heard_eq⟩, ?_, ?_, ?_, ?_, ?_, ?_, ?_, ?_, hpast.kept⟩
    · rw [hpast.asked_eq, hsaid, sends_eq]
      exact (List.append_nil _).symm
    · rw [hsaid, List.length_map, h.length_eq]
    · exact said_isPrefix_plan s answers
    · exact goesOn_of_lt hsaid h.length_eq
    · exact not_goesOn_of_lt hsaid h.length_eq
    · rw [hagreed, h.not_lacking]
      rfl
    · rintro m ⟨⟩
      rfl
    · simp
  | @failed answers sent e farewell hfarewell h hpast =>
    refine ⟨answers, ⟨farewell, hfarewell, hpast.heard_eq⟩, ?_, ?_, ?_, ?_, ?_, ?_, ?_, ?_,
      hpast.kept⟩
    · rw [hpast.asked_eq, h.said_eq, sends_eq]
      rfl
    · rw [h.said_eq, List.length_map, h.length_eq]
    · exact said_isPrefix_plan s answers
    · exact goesOn_of_lt h.said_eq h.length_eq
    · exact not_goesOn_of_lt h.said_eq h.length_eq
    · rw [h.not_granted]
      rfl
    · simp
    · rintro e' ⟨⟩
      exact h.error_eq

namespace World

variable {w last : World} {t : TaskId} {actions : List Action}

theorem move_after (w : World) (t : TaskId) (signal : Signal) (st : Step) :
    w.move signal (w.after t signal st) = ⟨signal, st.progress.queries, w.ledger, st.ledger⟩ := by
  rw [move, asked_after, List.drop_left, ledger_after]

/-- A creation as long as it has nothing to do with the ledger. -/
def Opening (s : Settings) (errand : Errand) (id : MemberId) (past : List Move) (task : Task) :
    Prop :=
  (∀ move ∈ past, move.heard ≠ .go) →
    ∃ c, task = ⟨errand, .creating c⟩ ∧ Creates s id past c

theorem keeps_opening (s : Settings) (t : TaskId) (errand : Errand) (id : MemberId) :
    Keeps s t (fun w signal w' => [w.move signal w']) (Opening s errand id) where
  step := by
    intro w past task signal st next hw htask _ h hstep hnext hgo
    obtain ⟨c, rfl, hcreates⟩ := h fun move hmove => hgo move (List.mem_append_left _ hmove)
    have hsignal : signal ≠ .go := by
      have hmove := hgo (w.move signal (w.after t signal st)) (by simp)
      exact hmove
    obtain ⟨c', rfl, hcreates'⟩ := hcreates.step hstep hsignal
    obtain rfl := Progress.running.inj hnext
    refine ⟨c', rfl, ?_⟩
    rw [move_after]
    simp only [Task.continuing, Progress.queries, asks_eq]
    exact hcreates'
  woken := by
    intro past errand limit h hgo
    obtain ⟨c, hc, -⟩ := h hgo
    simp at hc

theorem moves_cons {a : Action} {signal : Signal} {st : Step}
    (ha : a = .advance t signal) (hact : w.act s a = some (w.after t signal st)) :
    moves s t w (a :: actions) = ⟨signal, st.progress.queries, w.ledger, st.ledger⟩ ::
      moves s t (w.after t signal st) actions := by
  subst ha
  rw [moves, trail_cons hact, marks_advance, move_after]
  rfl

/-- Whatever the answers are, a login over a session comes to its end. -/
theorem exists_ended (replies : ℕ → Except ExchangeError Reply) (r : Except ExchangeError Unit)
    {k : ℕ} (hc : c.isConnected = true) (hgood : ∀ e, c ≠ .ended (.error e))
    (htask : w.task? t = some ⟨errand, .creating c⟩) :
    ∃ (actions : List Action) (last : World) (result : Except ExchangeError Member)
        (answers : List (Except ExchangeError Reply)), run s w actions = some last ∧
      (∀ a ∈ actions, ∃ signal, a = .advance t signal) ∧
        last.task? t = some ⟨errand, .creating (.ended result)⟩ ∧
          (moves s t w actions).map (·.heard) =
            answers.map .replied ++ (if result.isOk then [] else [.closed r]) ∧
              ∀ i, i < answers.length → answers[i]? = some (replies (k + i)) := by
  induction hspan : c.span using Nat.strong_induction_on generalizing w c k with
  | _ n ih =>
    cases c with
    | connecting id => simp [Creation.isConnected] at hc
    | ended result =>
      cases result with
      | ok m => exact ⟨[], w, .ok m, [], rfl, by simp, htask, rfl, by simp⟩
      | error e => exact absurd rfl (hgood e)
    | closing m e limit =>
      have hadmits : w.admits t (.closed r) = true := rfl
      have hact := act_advance_eq (s := s) htask hadmits rfl
      have hlast : (w.after t (.closed r) (Task.continuing w.ledger errand
          (.creating (.ended (.error e))) .none)).task? t =
            some ⟨errand, .creating (.ended (.error e))⟩ :=
        task?_after_running htask _ rfl (by simp)
      refine ⟨[.advance t (.closed r)], _, .error e, [], ?_, by simp, hlast, ?_, by simp⟩
      · rw [run, hact, Option.bind_some, run]
      · rw [moves_cons rfl hact]
        rfl
    | loggingIn m request rest =>
      have hadmits : w.admits t (.replied (replies k)) = true := rfl
      have hact := act_advance_eq (s := s) htask hadmits rfl
      have hlt := span_onwards_lt s w.now m request rest (replies k)
      have hnext : (w.after t (.replied (replies k)) (Task.continuing w.ledger errand
          (.creating (.onwards s w.now m request rest (replies k))) .none)).task? t =
            some ⟨errand, .creating (.onwards s w.now m request rest (replies k))⟩ :=
        task?_after_running htask _ rfl (by simp)
      have hgood : ∀ e, Creation.onwards s w.now m request rest (replies k) ≠
          .ended (.error e) := by
        intro e
        unfold Creation.onwards
        split
        · next rest' hrest => cases rest' <;> simp [Task.loginWith]
        · simp
      obtain ⟨actions, last, result, answers, hrun, hsteps, hlast, hheard, hreplies⟩ :=
        ih _ (hspan ▸ hlt) (k := k + 1) (isConnected_onwards ..) hgood hnext rfl
      refine ⟨.advance t (.replied (replies k)) :: actions, last, result, replies k :: answers,
        ?_, ?_, hlast, ?_, ?_⟩
      · rw [run, hact, Option.bind_some]
        exact hrun
      · simpa using hsteps
      · rw [moves_cons rfl hact, List.map_cons]
        exact congrArg (_ :: ·) hheard
      · intro i hi
        cases i with
        | zero => rfl
        | succ i =>
          have hi : i < answers.length := by simpa using hi
          rw [List.getElem?_cons_succ, hreplies i hi, Nat.add_right_comm, Nat.add_assoc]

/-- A creation that has failed gives its place back, and changes nothing else. -/
theorem Reachable.settled_failure (h : Reachable s w) {e : ExchangeError}
    (htask : w.task? t = some ⟨errand, .creating (.ended (.error e))⟩) :
    ∃ settled, w.act s (.advance t .go) = some settled ∧
      settled.ledger = { w.ledger with creating := w.ledger.creating - 1 } ∧
        settled.ledger.creating + 1 = w.ledger.creating := by
  have hadmits : w.admits t .go = true := rfl
  have hact := act_advance_eq (s := s) htask hadmits rfl
  have hledger : (w.after t .go
      (Task.settle s w.now w.ledger errand (.error e))).ledger = w.ledger.settle := by
    rw [ledger_after]
    exact Task.ledger_created false
  have hplaces : 0 < w.share.places := by
    obtain ⟨before, rest, hsplit, -⟩ := List.lookup_eq_some_iff.mp htask
    rw [places_share, List.countP_pos_iff]
    exact ⟨_, hsplit ▸ List.mem_append_right _ List.mem_cons_self, rfl⟩
  have hcreating := h.balanced.settle_creating hplaces
  exact ⟨_, hact, hledger, by rw [hledger, hcreating]⟩

/-- The step after which a creation asks for a session has taken a place for it, and an id, and has
changed nothing else. -/
theorem ledger_of_connecting {before : World} {signal : Signal}
    (hact : before.act s (.advance t signal) = some w)
    (htask : w.task? t = some ⟨errand, .creating (.connecting id)⟩) :
    before.ledger.atCapacity s = false ∧ id = before.ledger.next ∧
      w.ledger = { before.ledger with
        creating := before.ledger.creating + 1
        next := ⟨before.ledger.next.number + 1⟩ } := by
  obtain ⟨task, st, hbefore, hstep, rfl⟩ := act_advance hact
  have hconnecting : st.progress.connecting? = some id := by
    cases hprogress : st.progress with
    | finished o => simp [task?_after_finished before t signal hprogress] at htask
    | running next =>
      rcases task?_after_cases hbefore hprogress htask with rfl | ⟨_, _, -, hready⟩
      · rfl
      · simp at hready
  rw [ledger_after]
  exact Ledger.reserve_eq_some (Task.reserve_of_step hstep hconnecting)

/-- A creation that asks for a session, and is then answered as one likes: it has taken a place
before, it logs in step by step, stops at the first failure and then closes the session once, and
comes to an end.  Others may do meanwhile what they like; the creation itself leaves the ledger
alone, and when it has failed it gives its place back and nothing else. -/
theorem Reachable.login_stops (h : Reachable s w)
    (htask : w.task? t = some ⟨errand, .creating (.connecting id)⟩) :
    (∀ (before : World) signal, before.act s (.advance t signal) = some w →
      before.ledger.atCapacity s = false ∧ id = before.ledger.next ∧
        w.ledger = { before.ledger with
          creating := before.ledger.creating + 1
          next := ⟨before.ledger.next.number + 1⟩ }) ∧
    (∀ actions last line signals result, run s w actions = some last →
      (∀ a ∈ actions, a.launches? ≠ some t) →
        (moves s t w actions).map (·.heard) = .connected line :: signals →
          .go ∉ signals → last.task? t = some ⟨errand, .creating (.ended result)⟩ →
            (∃ answers, LoggedIn s id line (moves s t w actions) answers result) ∧
              ∀ e, result = .error e → ∃ settled, last.act s (.advance t .go) = some settled ∧
                settled.ledger = { last.ledger with creating := last.ledger.creating - 1 } ∧
                  settled.ledger.creating + 1 = last.ledger.creating) ∧
      ∀ line (replies : ℕ → Except ExchangeError Reply) r, line ∉ w.lines →
        ∃ (actions : List Action) (last : World) (result : Except ExchangeError Member)
            (answers : List (Except ExchangeError Reply)), run s w actions = some last ∧
          (∀ a ∈ actions, ∃ signal, a = .advance t signal) ∧
            last.task? t = some ⟨errand, .creating (.ended result)⟩ ∧
              (moves s t w actions).map (·.heard) = .connected line ::
                answers.map .replied ++ (if result.isOk then [] else [.closed r]) ∧
                  ∀ i, i < answers.length → answers[i]? = some (replies i) := by
  refine ⟨fun before signal hact => ledger_of_connecting hact htask, ?_, ?_⟩
  · intro actions last line signals result hrun hlaunch hheard hgo hlast
    have hbegun : ∀ task, w.task? t = some task → Opening s errand id [] task := by
      intro task htask' _
      obtain rfl := Option.some.inj (htask.symm.trans htask')
      exact ⟨_, rfl, .connecting rfl rfl⟩
    have hopening : Opening s errand id (moves s t w actions) ⟨errand, .creating (.ended result)⟩ :=
      (keeps_opening s t errand id).run h hbegun hrun hlaunch _ hlast
    have hnever : ∀ move ∈ moves s t w actions, move.heard ≠ .go := by
      intro move hmove
      have hmem : move.heard ∈ Signal.connected line :: signals :=
        hheard ▸ List.mem_map_of_mem hmove
      rintro hmove
      rw [hmove] at hmem
      simp [hgo] at hmem
    obtain ⟨c, hc, hcreates⟩ := hopening hnever
    obtain rfl : c = .ended result := by simpa using hc.symm
    refine ⟨?_, ?_⟩
    · cases hcreates with
      | connecting _ hc => cases hc
      | unconnected e hpast _ => simp [hpast] at hheard
      | connected line' hlogs =>
        obtain ⟨answers, hlogged⟩ := hlogs.loggedIn
        obtain ⟨farewell, -, hheard'⟩ := hlogged.heard_eq
        obtain ⟨rfl, -⟩ : line' = line ∧ _ := by simpa [hheard'] using hheard
        exact ⟨answers, hlogged⟩
    · rintro e rfl
      exact (h.later ⟨actions, hrun⟩).settled_failure hlast
  · intro line replies r hline
    have hadmits : w.admits t (.connected line) = true := by simp [admits, hline]
    have hact := act_advance_eq (s := s) htask hadmits rfl
    have hnext : (w.after t (.connected line) (Task.continuing w.ledger errand
        (.creating (Task.loginWith ⟨id, line, false, true⟩ (Login.requests s))) .none)).task? t =
          some ⟨errand, .creating (Task.loginWith ⟨id, line, false, true⟩ (Login.requests s))⟩ :=
      task?_after_running htask _ rfl (by simp)
    have hgood : ∀ e, Task.loginWith ⟨id, line, false, true⟩ (Login.requests s) ≠
        .ended (.error e) := by
      intro e
      cases Login.requests s <;> simp [Task.loginWith]
    obtain ⟨actions, last, result, answers, hrun, hsteps, hlast, hheard, hreplies⟩ :=
      exists_ended (s := s) replies r (k := 0) (isConnected_loginWith _ _) hgood hnext
    refine ⟨.advance t (.connected line) :: actions, last, result, answers, ?_, ?_, hlast, ?_, ?_⟩
    · rw [run, hact, Option.bind_some]
      exact hrun
    · simpa using hsteps
    · rw [moves_cons rfl hact, List.map_cons]
      exact congrArg (_ :: ·) hheard
    · intro i hi
      rw [hreplies i hi, Nat.zero_add]

/-- Settings with a user and no password. -/
def userOnly : Settings := { Settings.default with username := some "fax" }

/-- There is a place for the first session of the pool. -/
def vacant : World where
  now := 0
  ledger := .empty
  bell := .silent
  tasks := [(⟨1⟩, ⟨.fill 1 .zero, .ready⟩)]
  finished := []
  held := []
  lines := []
  dead := []
  asked := []

/-- The first session of the pool is on its way. -/
def arriving : World :=
  { vacant with
    ledger := ⟨[], [], [], [], 1, false, 0, [], ⟨2⟩⟩
    tasks := [(⟨1⟩, ⟨.fill 0 .zero, .creating (.connecting ⟨1⟩)⟩)]
    asked := [.connect] }

theorem reachable_arriving : Reachable userOnly arriving :=
  ⟨[.begin ⟨1⟩ .start, .advance ⟨1⟩ .go, .advance ⟨1⟩ .go], rfl⟩

/-- Somebody else asks for a member while the server wants a password, and then the session is lost
as it is closed. -/
def turnedAway : List Action :=
  [.advance ⟨1⟩ (.connected ⟨1⟩), .begin ⟨2⟩ .acquire,
    .advance ⟨1⟩ (.replied (.ok ⟨331, "password"⟩)), .advance ⟨2⟩ .go,
    .advance ⟨1⟩ (.closed (.error .closed))]

theorem login_stops_turnedAway : vacant.ledger.atCapacity userOnly = false ∧
    ∃ last settled answers,
      run userOnly arriving turnedAway = some last ∧
        LoggedIn userOnly ⟨1⟩ ⟨1⟩ (moves userOnly ⟨1⟩ arriving turnedAway) answers
          (.error Login.passwordMissing) ∧
          last.act userOnly (.advance ⟨1⟩ .go) = some settled ∧ settled.ledger.creating = 0 ∧
            ∃ (actions : List Action) (last' : World) (result : Except ExchangeError Member),
              run userOnly arriving actions = some last' ∧
                last'.task? ⟨1⟩ = some ⟨.fill 0 .zero, .creating (.ended result)⟩ := by
  have htask : arriving.task? ⟨1⟩ = some ⟨.fill 0 .zero, .creating (.connecting ⟨1⟩)⟩ := rfl
  obtain ⟨hplace, hstops, hends⟩ := reachable_arriving.login_stops htask
  obtain ⟨hroom, -, -⟩ := hplace vacant .go rfl
  have hlaunch : ∀ a ∈ turnedAway, a.launches? ≠ some ⟨1⟩ := by
    simp [turnedAway, Action.launches?]
  obtain ⟨⟨answers, hlogged⟩, hsettled⟩ := hstops turnedAway _ ⟨1⟩
    [.replied (.ok ⟨331, "password"⟩), .closed (.error .closed)] (.error Login.passwordMissing)
    rfl hlaunch rfl (by simp) rfl
  obtain ⟨settled, hact, hledger, -⟩ := hsettled _ rfl
  obtain ⟨actions, last', result, -, hrun, -, hended, -⟩ :=
    hends ⟨1⟩ (fun _ => .error .closed) (.ok ()) (by simp [arriving, vacant])
  exact ⟨hroom, _, settled, answers, rfl, hlogged, hact, by rw [hledger]; rfl, actions, last',
    result, hrun, hended⟩

end World

end FaxClient.Pool
