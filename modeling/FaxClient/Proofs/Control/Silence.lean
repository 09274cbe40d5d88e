import FaxClient.Proofs.Control.Closing

/-!
# Once closed, silent

Whatever is asked of a connection, it sends at most one command, and only while it is open.  Reading
sends nothing, and nothing that is read opens a connection again.  So what a server gets in the
course of any conversation are the lines of the commands that were issued while the connection was
open and that could be sent at all, one after the other; and once it is not open, a request is
refused, a goodbye has nothing to say, and the server gets nothing more.
-/

namespace FaxClient

/-- What is sent for a command: its line, or nothing if it is refused. -/
def Command.octets (c : Command) : Octets :=
  match c.encode with
  | .ok line => line
  | .error _ => []

namespace Control

/-- An exchange that issues these commands if the connection is open, and none if it is not, and
that never opens it. -/
structure Issues {α : Type} (x : Exchange Connection α) (commands : List Command) : Prop where
  received_eq : ∀ c, (x c).2.received =
    c.received ++ if c.isOpen then commands.flatMap Command.octets else []
  isOpen_of_isOpen : ∀ c, (x c).2.isOpen = true → c.isOpen = true

/-- An exchange whose only effect is its result. -/
def Still {α : Type} (x : Exchange Connection α) : Prop := ∀ c, (x c).2 = c

section

variable {α β : Type} {x : Exchange Connection α} {commands : List Command}

theorem still_pure (a : α) : Still (pure a : Exchange Connection α) := fun _ => rfl

theorem still_ofExcept (r : Except ExchangeError α) :
    Still (Exchange.ofExcept r : Exchange Connection α) := fun _ => rfl

theorem Still.issues (h : Still x) : Issues x [] where
  received_eq := by
    intro c
    rw [h c]
    simp
  isOpen_of_isOpen := by
    intro c hopen
    rwa [h c] at hopen

/-- What is made of the result afterwards neither sends nor opens anything. -/
theorem Issues.bind {f : α → Exchange Connection β} (hx : Issues x commands)
    (hf : ∀ a, Still (f a)) : Issues (x >>= f) commands := by
  have hstate : ∀ c, ((x >>= f) c).2 = (x c).2 := by
    intro c
    rcases hrun : x c with ⟨result, d⟩
    cases result with
    | ok a => rw [Exchange.bind_ok hrun, hf a]
    | error e => rw [Exchange.bind_error hrun]
  constructor
  · intro c
    rw [hstate, hx.received_eq]
  · intro c hopen
    rw [hstate] at hopen
    exact hx.isOpen_of_isOpen c hopen

/-- What is looked up beforehand neither sends nor opens anything. -/
theorem Issues.of_ofExcept {r : Except ExchangeError α} {f : α → Exchange Connection β}
    (hf : ∀ a, r = .ok a → Issues (f a) commands) (hr : ∀ e, r = .error e → commands = []) :
    Issues (Exchange.ofExcept r >>= f) commands := by
  cases r with
  | ok a => exact hf a rfl
  | error e =>
    have hstill : Still (Exchange.ofExcept (.error e) >>= f) := fun _ => rfl
    rw [hr e rfl]
    exact hstill.issues

end

namespace Connection

/-! ## Reading and sending -/

theorem received_look (c : Connection) : c.look.connection.received = c.received := by
  unfold look
  split
  · rfl
  · split
    · rfl
    · split
      · rfl
      · rfl
      · split
        · rfl
        · split <;> rfl

/-- Reading sends nothing, however much of the stream it takes. -/
theorem received_nextFrom (incoming : List Octets) (c : Connection) :
    (nextFrom incoming c).2.received = c.received := by
  induction incoming generalizing c with
  | nil =>
    have hlook := c.received_look
    rw [nextFrom]
    split
    · next answer d hfound =>
      rw [hfound] at hlook
      exact hlook
    · next d hwaiting =>
      rw [hwaiting] at hlook
      have hlast := received_look { d with fresh := true, ended := true }
      dsimp only
      split
      · exact hlook
      · split
        · next answer d' hfound =>
          rw [hfound] at hlast
          exact hlast.trans hlook
        · next d' hwaiting =>
          rw [hwaiting] at hlast
          exact hlast.trans hlook
  | cons chunk rest ih =>
    have hlook := c.received_look
    rw [nextFrom]
    split
    · next answer d hfound =>
      rw [hfound] at hlook
      exact hlook
    · next d hwaiting =>
      rw [hwaiting] at hlook
      exact (ih _).trans hlook

@[simp] theorem received_note (c : Connection) (e : ExchangeError) :
    (c.note e).received = c.received := by
  unfold note
  split <;> rfl

theorem isOpen_of_isOpen_note {c : Connection} {e : ExchangeError}
    (h : (c.note e).isOpen = true) : c.isOpen = true := by
  unfold note at h
  split at h
  · simp at h
  · exact h

theorem issues_read : Issues read [] := by
  have hnext : ∀ c : Connection, c.next.2.received = c.received := fun c =>
    received_nextFrom c.incoming c
  constructor
  · intro c
    have hc := hnext c
    unfold read
    split
    · next r d heq =>
      rw [heq] at hc
      split <;> simpa using hc
    · next e d heq =>
      rw [heq] at hc
      simpa [fail] using hc
    · next d heq =>
      rw [heq] at hc
      simpa [fail] using hc
  · intro c hopen
    have hc := c.isOpen_next
    unfold read at hopen
    split at hopen
    · next r d heq =>
      rw [heq] at hc
      split at hopen
      · simp at hopen
      · exact hc.symm.trans hopen
    · next e d heq =>
      rw [heq] at hc
      exact hc.symm.trans (isOpen_of_isOpen_note hopen)
    · next d heq =>
      rw [heq] at hc
      exact hc.symm.trans (isOpen_of_isOpen_note hopen)

theorem request_of_not_isOpen {c : Connection} (h : c.isOpen = false) (command : Command) :
    request command c = (.error .closed, c) := by
  simp [request, h]

theorem close_of_not_isOpen {c : Connection} (h : c.isOpen = false) : close c = (.ok (), c) := by
  simp [close, h]

theorem received_request {c : Connection} (h : c.isOpen = true) (command : Command) :
    (request command c).2.received = c.received ++ command.octets := by
  cases hencode : command.encode with
  | error e =>
    rw [request_of_encode_error h hencode]
    simp [fail, Command.octets, hencode]
  | ok line =>
    rw [request_of_encode_ok h hencode, issues_read.received_eq]
    simp [deliver, Command.octets, hencode]

theorem issues_request (command : Command) : Issues (request command) [command] := by
  constructor
  · intro c
    cases hopen : c.isOpen with
    | false => simp [request_of_not_isOpen hopen]
    | true => simpa using received_request hopen command
  · intro c hopen
    by_contra hclosed
    rw [Bool.not_eq_true] at hclosed
    rw [request_of_not_isOpen hclosed, hclosed] at hopen
    simp at hopen

def goodbye : Command := ⟨"QUIT", none⟩

theorem issues_close : Issues close [goodbye] := by
  have hstate : ∀ c : Connection, c.isOpen = true →
      (close c).2 = { (request goodbye c).2 with isOpen := false } := by
    intro c hopen
    rcases hrun : request goodbye c with ⟨result, d⟩
    have hrun' : request ⟨"QUIT", none⟩ c = (result, d) := hrun
    cases result <;> simp [close, hopen, hrun']
  constructor
  · intro c
    cases hopen : c.isOpen with
    | false => simp [close_of_not_isOpen hopen]
    | true =>
      rw [hstate c hopen]
      simpa using received_request hopen goodbye
  · intro c hclosed
    by_contra hopen
    rw [Bool.not_eq_true] at hopen
    rw [close_of_not_isOpen hopen, hopen] at hclosed
    simp at hclosed

end Connection

/-! ## Verbs -/

section

variable {verb : String} {args : Option String} {codes : List Nat}

theorem issues_ask : Issues (ask verb args codes : Exchange Connection Reply) [⟨verb, args⟩] :=
  (Connection.issues_request _).bind fun _ => still_ofExcept _

theorem issues_tell : Issues (tell verb args codes : Exchange Connection Unit) [⟨verb, args⟩] :=
  issues_ask.bind fun _ => still_pure ()

theorem ask_of_not_isOpen {c : Connection} (h : c.isOpen = false) :
    ask verb args codes c = (.error .closed, c) :=
  Exchange.bind_error (Connection.request_of_not_isOpen h _)

theorem tell_of_not_isOpen {c : Connection} (h : c.isOpen = false) :
    tell verb args codes c = (.error .closed, c) :=
  Exchange.bind_error (ask_of_not_isOpen h)

end

/-! ## Calls -/

namespace Call

/-- The command that a call issues over an open connection. -/
def command? : Call → Option Command
  | .request command => some command
  | .read => none
  | .user name => some ⟨"USER", some name⟩
  | .pass password => some ⟨"PASS", some password⟩
  | .admin password => some ⟨"ADMIN", some password⟩
  | .tzone zone => some ⟨"TZONE", some zone⟩
  | .idle seconds => some ⟨"IDLE", some (toString seconds)⟩
  | .noop => some ⟨"NOOP", none⟩
  | .quit | .close => some ⟨"QUIT", none⟩
  | .setRepresentation r => some ⟨"TYPE", some r.code⟩
  | .setMode m => some ⟨"MODE", some m.code⟩
  | .port address => (HostPort.encode? address).toOption.map fun arg => ⟨"PORT", some arg⟩
  | .pasv => some ⟨"PASV", none⟩

theorem issues_done {x : Exchange Connection Unit} {commands : List Command}
    (hx : Issues x commands) : Issues (done x) commands :=
  hx.bind fun _ => still_pure Answer.done

theorem issues_run (call : Call) :
    Issues (call.run : Exchange Connection Answer) call.command?.toList := by
  cases call with
  | request command => exact (Connection.issues_request command).bind fun _ => still_pure _
  | read => exact Connection.issues_read.bind fun _ => still_pure _
  | user name =>
    have huser : Issues (Control.user name) [⟨"USER", some name⟩] :=
      issues_ask.bind fun _ => still_pure _
    exact huser.bind fun _ => still_pure _
  | port address =>
    refine issues_done (Issues.of_ofExcept ?_ ?_)
    · intro arg harg
      simp only [command?, harg]
      exact issues_tell
    · intro e he
      simp [command?, he, Except.toOption]
  | pasv =>
    have hpasv : Issues Control.pasv [⟨"PASV", none⟩] := issues_ask.bind fun _ => still_ofExcept _
    exact hpasv.bind fun _ => still_pure _
  | close => exact issues_done Connection.issues_close
  | _ => exact issues_done issues_tell

/-- Over a connection that is not open, whatever would issue a command is refused, and to close it
succeeds. -/
theorem run_of_not_isOpen {c : Connection} (h : c.isOpen = false) :
    (∀ call : Call, call.command?.isSome = true → call ≠ .close →
      call.run c = (.error .closed, c)) ∧ Call.close.run c = (.ok .done, c) := by
  constructor
  · intro call hcommand hclose
    have htell {verb : String} {args : Option String} {codes : List Nat} :
        done (tell verb args codes) c = (.error .closed, c) :=
      Exchange.bind_error (tell_of_not_isOpen h)
    cases call with
    | request command => exact Exchange.bind_error (Connection.request_of_not_isOpen h command)
    | read => simp [command?] at hcommand
    | user name =>
      have huser : Control.user name c = (.error .closed, c) :=
        Exchange.bind_error (ask_of_not_isOpen h)
      exact Exchange.bind_error huser
    | port address =>
      cases hencode : HostPort.encode? address with
      | error e => simp [command?, hencode, Except.toOption] at hcommand
      | ok arg =>
        have hport : Control.port address c = tell "PORT" (some arg) [200] c := by
          rw [Control.port, hencode]
          rfl
        exact Exchange.bind_error (hport.trans (tell_of_not_isOpen h))
    | pasv =>
      have hpasv : Control.pasv c = (.error .closed, c) :=
        Exchange.bind_error (ask_of_not_isOpen h)
      exact Exchange.bind_error hpasv
    | close => exact absurd rfl hclose
    | _ => exact htell
  · exact Exchange.bind_ok (Connection.close_of_not_isOpen h)

end Call

/-! ## Conversations -/

/-- One call, and what the server does meanwhile: what it sends on, and what it sends in answer to
the next command that it gets. -/
structure Turn where
  sent : List Octets
  answer : Octets
  call : Call

namespace Turn

/-- A connection as the server has it in a turn. -/
def served (t : Turn) (c : Connection) : Connection :=
  { c with incoming := c.incoming ++ t.sent, answer := t.answer }

def run (t : Turn) (c : Connection) : Except ExchangeError Answer × Connection :=
  t.call.run (t.served c)

/-- The commands that are issued in a turn. -/
def issued (t : Turn) (c : Connection) : List Command :=
  if c.isOpen then t.call.command?.toList else []

theorem received_run (t : Turn) (c : Connection) :
    (t.run c).2.received = c.received ++ (t.issued c).flatMap Command.octets := by
  have hserved : (t.served c).isOpen = c.isOpen := rfl
  rw [run, t.call.issues_run.received_eq, issued, hserved]
  split <;> rfl

theorem isOpen_of_isOpen_run {t : Turn} {c : Connection} (h : (t.run c).2.isOpen = true) :
    c.isOpen = true := by
  have hserved := t.call.issues_run.isOpen_of_isOpen (t.served c) h
  exact hserved

end Turn

namespace Connection

def converse (c : Connection) (turns : List Turn) : Connection :=
  turns.foldl (fun c t => (t.run c).2) c

/-- The commands that are issued in the course of a conversation, in order. -/
def issued : Connection → List Turn → List Command
  | _, [] => []
  | c, t :: turns => t.issued c ++ issued (t.run c).2 turns

theorem received_converse (c : Connection) (turns : List Turn) :
    (c.converse turns).received = c.received ++ (c.issued turns).flatMap Command.octets := by
  induction turns generalizing c with
  | nil => simp [converse, issued]
  | cons t turns ih =>
    calc (c.converse (t :: turns)).received
        = ((t.run c).2.converse turns).received := rfl
      _ = (t.run c).2.received ++ ((t.run c).2.issued turns).flatMap Command.octets := ih _
      _ = c.received ++ (c.issued (t :: turns)).flatMap Command.octets := by
        rw [t.received_run, issued, List.flatMap_append, List.append_assoc]

theorem isOpen_of_isOpen_converse {c : Connection} {turns : List Turn}
    (h : (c.converse turns).isOpen = true) : c.isOpen = true := by
  induction turns generalizing c with
  | nil => exact h
  | cons t turns ih => exact Turn.isOpen_of_isOpen_run (ih h)

theorem isOpen_converse {c : Connection} (h : c.isOpen = false) (turns : List Turn) :
    (c.converse turns).isOpen = false := by
  by_contra hopen
  rw [isOpen_of_isOpen_converse (by simpa using hopen)] at h
  simp at h

theorem issued_of_not_isOpen {c : Connection} (h : c.isOpen = false) (turns : List Turn) :
    c.issued turns = [] := by
  induction turns generalizing c with
  | nil => rfl
  | cons t turns ih =>
    have hrun : (t.run c).2.isOpen = false := isOpen_converse h [t]
    simp [issued, Turn.issued, h, ih hrun]

/-- A connection that has fallen silent: whatever its user and its server do, it stays closed, sends
nothing, refuses every request, and closes at once. -/
structure Silent (c : Connection) : Prop where
  stays_closed : ∀ turns, (c.converse turns).isOpen = false
  sends_nothing : ∀ turns, (c.converse turns).received = c.received
  refuses : ∀ (turns : List Turn) (t : Turn), t.call.command?.isSome = true → t.call ≠ .close →
    (t.run (c.converse turns)).1 = .error .closed
  closes : ∀ (turns : List Turn) (t : Turn), t.call = .close →
    (t.run (c.converse turns)).1 = .ok .done

theorem silent_of_not_isOpen {c : Connection} (h : c.isOpen = false) : c.Silent where
  stays_closed := isOpen_converse h
  sends_nothing := by
    intro turns
    rw [received_converse, issued_of_not_isOpen h]
    simp
  refuses := by
    intro turns t hcommand hclose
    have hclosed : (t.served (c.converse turns)).isOpen = false := isOpen_converse h turns
    rw [Turn.run, (Call.run_of_not_isOpen hclosed).1 t.call hcommand hclose]
  closes := by
    intro turns t hcall
    have hclosed : (t.served (c.converse turns)).isOpen = false := isOpen_converse h turns
    rw [Turn.run, hcall, (Call.run_of_not_isOpen hclosed).2]

/-- Whatever is called and whatever the server sends, the server gets the lines of the commands that
were issued while the connection was open, and once it is not open it is silent for good. -/
theorem lines_then_silence (c : Connection) (turns : List Turn) :
    (c.converse turns).received = c.received ++ (c.issued turns).flatMap Command.octets ∧
      ((c.converse turns).isOpen = false → (c.converse turns).Silent) := by
  constructor
  · exact received_converse c turns
  · intro hclosed
    exact silent_of_not_isOpen hclosed

/-- A command that is answered, one whose answer ends the session, and one that comes too late. -/
def farewell : List Turn :=
  [⟨[], Octets.ofText "200 ok\r\n", .noop⟩, ⟨[], Octets.ofText "421 bye\r\n", .pasv⟩,
    ⟨[], [], .quit⟩]

/-- The server gets the two commands that came in time, and nothing when the user goes on. -/
theorem lines_then_silence_farewell :
    ((Call.answering "").converse farewell).received = Octets.ofText "NOOP\r\nPASV\r\n" ∧
      ((Call.answering "").converse farewell).Silent := by
  obtain ⟨hreceived, hsilent⟩ := lines_then_silence (Call.answering "") farewell
  refine ⟨hreceived.trans ?_, hsilent ?_⟩
  · rfl
  · rfl

end Connection

end Control

end FaxClient
