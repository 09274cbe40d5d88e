import FaxClient.Proofs.Pool.Course

/-!
# Talking to a session

A task that waits for an answer of its session goes on once the session has given it.  So a task
and a control connection take turns: what the task asks is asked of the connection, and what that
answers is what the task hears.  A creation that has connected to its session logs in like that and
says goodbye if the login fails; whatever it is answered, it ends after some turns.
-/

namespace FaxClient.Pool

theorem World.act_advance_eq {s : Settings} {w : World} {t : TaskId} {signal : Signal}
    {task : Task} {step : Step} (htask : w.task? t = some task) (hadmits : w.admits t signal = true)
    (hstep : task.step s w.now w.isOpen w.ledger signal = some step) :
    w.act s (.advance t signal) = some (w.after t signal step) := by
  simp [act, htask, hadmits, hstep]

variable {σ : Type} [Control σ]

/-- What a session answers to a query, and the session afterwards.  It is not asked to connect. -/
def Query.answer? (c : σ) : Query → Option (Signal × σ)
  | .connect => none
  | .send _ command =>
    let (r, c) := Control.request command c
    some (.replied r, c)
  | .read _ =>
    let (r, c) := Control.read c
    some (.replied r, c)
  | .close _ =>
    let (r, c) := Control.close c
    some (.closed r, c)

/-- A pool, and the session that one of its tasks talks to. -/
structure Talk (σ : Type) where
  world : World
  session : σ

/-- A creation that logs in, once a request of it is answered. -/
def Creation.onwards (s : Settings) (now : Time) (m : Member) (request : Login)
    (rest : List Login) (r : Except ExchangeError Reply) : Creation :=
  match r.bind (Login.next s request rest) with
  | .ok rest => Task.loginWith m rest
  | .error e => .closing m e (now + closeLimit)

namespace Talk

/-- One turn: a query of the task, and the answer. -/
def turn (s : Settings) (t : TaskId) (k : Talk σ) : Option (Talk σ) := do
  let task ← k.world.task? t
  let query ← task.query?
  let (signal, session) ← query.answer? k.session
  let world ← k.world.act s (.advance t signal)
  return ⟨world, session⟩

def turns (s : Settings) (t : TaskId) : ℕ → Talk σ → Option (Talk σ)
  | 0, k => some k
  | n + 1, k => (k.turn s t).bind (turns s t n)

section

variable {s : Settings} {t : TaskId} {k : Talk σ} {errand : Errand} {m : Member}

/-- A turn in which the task hears a signal, and is a certain task then. -/
structure Hears (s : Settings) (t : TaskId) (k : Talk σ) (signal : Signal) (session : σ)
    (next : Task) (k' : Talk σ) : Prop where
  turn_eq : k.turn s t = some k'
  act_eq : k.world.act s (.advance t signal) = some k'.world
  session_eq : k'.session = session
  task_eq : k'.world.task? t = some next

theorem hears {task : Task} {query : Query} {signal : Signal} {session : σ} {c : Creation}
    (htask : k.world.task? t = some task) (hquery : task.query? = some query)
    (hanswer : query.answer? k.session = some (signal, session))
    (hadmits : k.world.admits t signal = true)
    (hstep : task.step s k.world.now k.world.isOpen k.world.ledger signal =
      some (Task.continuing k.world.ledger errand (.creating c) .none)) :
    ∃ k', k.Hears s t signal session ⟨errand, .creating c⟩ k' := by
  have hact := World.act_advance_eq htask hadmits hstep
  have hturn : k.turn s t = some ⟨k.world.after t signal
      (Task.continuing k.world.ledger errand (.creating c) .none), session⟩ := by
    simp [turn, htask, hquery, hanswer, hact]
  exact ⟨_, hturn, hact, rfl, World.task?_after_running htask signal rfl (by simp)⟩

theorem hears_loggingIn {request : Login} {rest : List Login}
    (htask : k.world.task? t = some ⟨errand, .creating (.loggingIn m request rest)⟩) :
    ∃ k', k.Hears s t (.replied (Control.request request.command k.session).1)
      (Control.request request.command k.session).2
      ⟨errand, .creating (.onwards s k.world.now m request rest
        (Control.request request.command k.session).1)⟩ k' :=
  hears htask rfl rfl rfl rfl

theorem hears_closing {e : ExchangeError} {limit : Time}
    (htask : k.world.task? t = some ⟨errand, .creating (.closing m e limit)⟩) :
    ∃ k', k.Hears s t (.closed (Control.close k.session).1) (Control.close k.session).2
      ⟨errand, .creating (.ended (.error e))⟩ k' :=
  hears htask rfl rfl rfl rfl

end

end Talk

/-! ## How long it takes -/

/-- The requests that a request can lead to, itself included. -/
def Login.span : Login → ℕ
  | .user _ => 2
  | .pass _ | .admin _ | .tzone _ => 1

/-- The turns that are left at most. -/
def Creation.span : Creation → ℕ
  | .loggingIn _ request rest => request.span + (rest.map Login.span).sum + 1
  | .closing .. => 1
  | .connecting _ | .ended _ => 0

@[simp] theorem Creation.span_loggingIn (m : Member) (request : Login) (rest : List Login) :
    (loggingIn m request rest).span = request.span + (rest.map Login.span).sum + 1 := rfl

def Creation.isConnected : Creation → Bool
  | .connecting _ => false
  | .loggingIn .. | .closing .. | .ended _ => true

theorem isConnected_loginWith (m : Member) (rest : List Login) :
    (Task.loginWith m rest).isConnected = true := by
  cases rest <;> rfl

theorem span_loginWith_le (m : Member) (rest : List Login) :
    (Task.loginWith m rest).span ≤ (rest.map Login.span).sum + 1 := by
  cases rest with
  | nil => exact Nat.zero_le _
  | cons request rest => simp [Task.loginWith, Creation.span]

theorem Login.span_of_next {s : Settings} {request : Login} {rest rest' : List Login}
    {reply : Reply} (h : next s request rest reply = .ok rest') :
    (rest'.map span).sum < request.span + (rest.map span).sum := by
  unfold next at h
  cases hreply : reply.expect request.accepted with
  | error e => simp [hreply, bind, Except.bind] at h
  | ok reply' =>
    simp only [hreply, bind, Except.bind] at h
    cases request with
    | user name =>
      by_cases hwanted : reply'.code = Control.passwordWanted
      · simp only [hwanted, if_true] at h
        cases hpassword : s.password with
        | none => simp [hpassword] at h
        | some password =>
          obtain rfl : pass password :: rest = rest' := by
            simpa [hpassword, pure, Except.pure] using h
          simp [span]
      · obtain rfl : rest = rest' := by simpa [hwanted, pure, Except.pure] using h
        simp [span]
    | _ =>
      obtain rfl : rest = rest' := by simpa [pure, Except.pure] using h
      simp [span]

theorem span_onwards_lt (s : Settings) (now : Time) (m : Member) (request : Login)
    (rest : List Login) (r : Except ExchangeError Reply) :
    (Creation.onwards s now m request rest r).span <
      (Creation.loggingIn m request rest).span := by
  have hspan : 0 < request.span := by cases request <;> simp [Login.span]
  unfold Creation.onwards
  split
  · next rest' hnext =>
    cases r with
    | error e => simp [Except.bind] at hnext
    | ok reply =>
      have hlt := Login.span_of_next hnext
      have hle := span_loginWith_le m rest'
      simp only [Creation.span_loggingIn]
      omega
  · simp only [Creation.span]
    omega

theorem isConnected_onwards (s : Settings) (now : Time) (m : Member) (request : Login)
    (rest : List Login) (r : Except ExchangeError Reply) :
    (Creation.onwards s now m request rest r).isConnected = true := by
  unfold Creation.onwards
  split
  · exact isConnected_loginWith m _
  · rfl

namespace Talk

variable {s : Settings} {t : TaskId} {errand : Errand}

/-- Whatever its session answers, a creation that has connected to it ends. -/
theorem exists_ended (k : Talk σ) {c : Creation} (hc : c.isConnected = true)
    (htask : k.world.task? t = some ⟨errand, .creating c⟩) :
    ∃ n k' result, k.turns s t n = some k' ∧
      k'.world.task? t = some ⟨errand, .creating (.ended result)⟩ := by
  induction hspan : c.span using Nat.strong_induction_on generalizing k c with
  | _ n ih =>
    cases c with
    | connecting id => simp [Creation.isConnected] at hc
    | ended result => exact ⟨0, k, result, rfl, htask⟩
    | closing m e limit =>
      obtain ⟨k', hears⟩ := hears_closing (s := s) htask
      exact ⟨1, k', .error e, by simp [turns, hears.turn_eq], hears.task_eq⟩
    | loggingIn m request rest =>
      obtain ⟨k', hears⟩ := hears_loggingIn (s := s) htask
      have hlt := span_onwards_lt s k.world.now m request rest
        (Control.request request.command k.session).1
      obtain ⟨n', last, result, hturns, hlast⟩ := ih _ (hspan ▸ hlt) k'
        (isConnected_onwards ..) hears.task_eq rfl
      exact ⟨n' + 1, last, result, by simp [turns, hears.turn_eq, hturns], hlast⟩

end Talk

end FaxClient.Pool
