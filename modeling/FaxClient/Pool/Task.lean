import FaxClient.Pool.Bell
import FaxClient.Pool.Error
import FaxClient.Pool.Ledger
import FaxClient.Pool.Login

/-!
# Operations of a pool

An operation is a task that goes on step by step: a stretch of work under the lock of the ledger,
or something that it waited for and that has now happened.  What it waits for can be read off it.
Between two steps any other task may go on, and a task may be abandoned at any time; then what it
holds is let go of.

A task consists of an errand, which says what it is about and what is still to do, and of what it
is doing at the moment in the course of it.
-/

namespace FaxClient.Pool

/-- Milliseconds. -/
abbrev Time := Nat

/-- How long a session is given to say goodbye. -/
def closeLimit : Time := 5000

structure Tally where
  succeeded : Nat
  failed : Nat
  deriving DecidableEq

def Tally.zero : Tally := ⟨0, 0⟩

def Tally.count (t : Tally) (success : Bool) : Tally :=
  if success then { t with succeeded := t.succeeded + 1 } else { t with failed := t.failed + 1 }

inductive Creation where
  | connecting (id : MemberId)
  /-- The first of these requests was sent; the others follow. -/
  | loggingIn (m : Member) (request : Login) (rest : List Login)
  | closing (m : Member) (error : ExchangeError) (limit : Time)
  /-- It has succeeded or failed, and the ledger does not know yet. -/
  | ended (result : Except ExchangeError Member)

inductive Doing where
  /-- The next piece of its errand is up. -/
  | ready
  | creating (c : Creation)
  | discarding (m : Member)
  | closing (m : Member) (limit : Time)
  | parked (limit : Time)
  /-- It waits for a reply to a holder's request, or for a reply alone. -/
  | asking
  | leaving

inductive Errand where
  | acquire (deadline : Time)
  /-- No member was found: to create one if there is a place for it. -/
  | grow (deadline : Time)
  | release (m : Member)
  /-- A member that came back is not kept: to create another, or not. -/
  | replace (wanted : Bool)
  | start
  | fill (left : Nat) (tally : Tally)
  | stop
  /-- To close members that a stop took out. -/
  | drain (left : List Member) (tally : Tally)
  | restart
  /-- To close members that a restart took out, and then to fill up. -/
  | renew (left : List Member) (tally : Tally)
  /-- A holder's request, or, without a command, a read. -/
  | ask (m : Member) (command : Option Command)
  | leave (m : Member)

structure Task where
  errand : Errand
  doing : Doing

inductive Outcome where
  | acquired (m : Member)
  | refused (e : Error)
  | released
  | tallied (t : Tally)
  /-- The holder has the member again. -/
  | answered (m : Member) (r : Except ExchangeError Reply)
  | left (m : Member) (r : Except ExchangeError Unit)

inductive Signal where
  | go
  | connected (line : Line)
  | unconnected (e : ExchangeError)
  | replied (r : Except ExchangeError Reply)
  | closed (r : Except ExchangeError Unit)
  | cut
  | rung
  | late

inductive Progress where
  | running (t : Task)
  | finished (o : Outcome)

structure Step where
  ledger : Ledger
  ring : Ring
  progress : Progress

namespace Task

def continuing (l : Ledger) (errand : Errand) (doing : Doing) (ring : Ring) : Step :=
  ⟨l, ring, .running ⟨errand, doing⟩⟩

def finishing (l : Ledger) (o : Outcome) (ring : Ring) : Step := ⟨l, ring, .finished o⟩

def patience (s : Settings) (now deadline : Time) : Time :=
  now + min s.retryInterval (deadline - now)

/-- An errand after a creation for it: whether a member was added. -/
def created (s : Settings) (now : Time) (l : Ledger) (errand : Errand) (added : Bool) : Step :=
  match errand with
  | .grow deadline =>
    continuing l (.acquire deadline)
      (if added then .ready else .parked (patience s now deadline)) .none
  | .fill left tally => continuing l (.fill left (tally.count added)) .ready .none
  | _ => finishing l .released .none

/-- An errand after a member was closed for it: whether that went well.  One that was created for
it and then not wanted counts as a creation that added none. -/
def discarded (s : Settings) (now : Time) (l : Ledger) (errand : Errand) (success : Bool) : Step :=
  match errand with
  | .drain left tally => continuing l (.drain left (tally.count success)) .ready .none
  | .renew left tally => continuing l (.renew left (tally.count success)) .ready .none
  | .acquire _ | .replace _ => continuing l errand .ready .none
  | _ => created s now l errand false

def tryCreate (s : Settings) (now : Time) (l : Ledger) (errand : Errand) : Step :=
  match l.reserve s with
  | some (id, l) => continuing l errand (.creating (.connecting id)) .none
  | none => created s now l errand false

def proceed (s : Settings) (now : Time) (isOpen : Line → Bool) (l : Ledger) : Errand → Step
  | .acquire deadline =>
    match l.take isOpen with
    | (.stopped, l) => finishing l (.refused .stopped) .none
    | (.ready m, l) => finishing l (.acquired m) .none
    | (.stale m, l) => continuing l (.acquire deadline) (.discarding m) .none
    | (.nothing, l) =>
      if deadline ≤ now then finishing l (.refused (.exhausted s.blockingDuration)) .none
      else continuing l (.grow deadline) .ready .none
  | .grow deadline => tryCreate s now l (.grow deadline)
  | .release m =>
    match l.giveBack s isOpen m with
    | (.kept, l) => finishing l .released .once
    | (.doomed m replace, l) => continuing l (.replace replace) (.discarding m) .none
  | .replace true => tryCreate s now l (.replace false)
  | .replace false => finishing l .released .none
  | .start =>
    let (missing, l) := l.reopen s
    continuing l (.fill missing .zero) .ready .none
  | .fill 0 tally => finishing l (.tallied tally) .none
  | .fill (left + 1) tally => tryCreate s now l (.fill left tally)
  | .stop =>
    let (idle, cut, l) := l.stop
    continuing l (.drain idle ⟨cut, 0⟩) .ready .all
  | .drain [] tally => finishing l (.tallied tally) .none
  | .drain (m :: left) tally => continuing l (.drain left tally) (.discarding m) .none
  | .restart =>
    let (idle, l) := l.flush
    continuing l (.renew idle .zero) .ready .none
  | .renew [] tally => continuing l (.fill (l.missing s) tally) .ready .none
  | .renew (m :: left) tally => continuing l (.renew left tally) (.discarding m) .none
  | .ask m command =>
    if l.revoked.contains m.id then finishing l (.answered m (.error .revoked)) .none
    else continuing l (.ask m command) .asking .none
  | .leave m => continuing l (.leave { m with valid := false }) .leaving .none

/-- A member after an answer to its holder: a fatal error makes it unusable. -/
def noted (m : Member) : Except ExchangeError Reply → Member
  | .ok _ => m
  | .error e => if e.isFatal then { m with valid := false } else m

def loginWith (m : Member) : List Login → Creation
  | [] => .ended (.ok m)
  | request :: rest => .loggingIn m request rest

/-- The last piece of a creation: the place is given back, and the member put in it. -/
def settle (s : Settings) (now : Time) (l : Ledger) (errand : Errand)
    (result : Except ExchangeError Member) : Step :=
  let l := l.settle
  match result with
  | .error _ => created s now l errand false
  | .ok m =>
    match l.publish m with
    | none => continuing l errand (.discarding m) .none
    | some l => { created s now l errand true with ring := .once }

/-- One step of a task; none if the signal is not what it waits for. -/
def step (s : Settings) (now : Time) (isOpen : Line → Bool) (l : Ledger) (t : Task)
    (signal : Signal) : Option Step :=
  match t.doing, signal with
  | .ready, .go => some (proceed s now isOpen l t.errand)
  | .creating (.connecting id), .connected line =>
    let m : Member := ⟨id, line, false, true⟩
    some (continuing l t.errand (.creating (loginWith m (Login.requests s))) .none)
  | .creating (.connecting _), .unconnected e =>
    some (continuing l t.errand (.creating (.ended (.error e))) .none)
  | .creating (.loggingIn m request rest), .replied r =>
    let c := match r.bind (Login.next s request rest) with
      | .ok rest => loginWith m rest
      | .error e => .closing m e (now + closeLimit)
    some (continuing l t.errand (.creating c) .none)
  | .creating (.closing _ e _), .closed _ =>
    some (continuing l t.errand (.creating (.ended (.error e))) .none)
  | .creating (.closing _ e limit), .late =>
    if limit ≤ now then some (continuing l t.errand (.creating (.ended (.error e))) .none) else none
  | .creating (.ended result), .go => some (settle s now l t.errand result)
  | .discarding m, .go =>
    let l := l.revoke m.id
    if isOpen m.line then some (continuing l t.errand (.closing m (now + closeLimit)) .none)
    else some (discarded s now l t.errand true)
  | .closing _ _, .closed r => some (discarded s now l t.errand r.isOk)
  | .closing _ limit, .late =>
    if limit ≤ now then some (discarded s now l t.errand false) else none
  | .parked _, .rung => some (continuing l t.errand .ready .none)
  | .parked limit, .late => if limit ≤ now then some (continuing l t.errand .ready .none) else none
  | .asking, .replied r =>
    match t.errand with
    | .ask m _ => some (finishing l (.answered (noted m r) r) .none)
    | _ => none
  | .asking, .cut =>
    match t.errand with
    | .ask m _ =>
      if l.revoked.contains m.id then
        some (finishing l (.answered (noted m (.error .revoked)) (.error .revoked)) .none)
      else none
    | _ => none
  | .leaving, .closed r =>
    match t.errand with
    | .leave m => some (finishing l (.left m r) .none)
    | _ => none
  | _, _ => none

/-- The member that a task holds for a caller. -/
def held? (t : Task) : Option Member :=
  match t.errand with
  | .release m | .ask m _ | .leave m => some m
  | _ => none

/-- The member that its holder has back once the task is over. -/
def lent? (t : Task) : Option Member :=
  match t.errand with
  | .ask m _ | .leave m => some m
  | _ => none

def isCreating (t : Task) : Bool :=
  match t.doing with
  | .creating _ => true
  | _ => false

def limit? (t : Task) : Option Time :=
  match t.doing with
  | .parked limit | .closing _ limit | .creating (.closing _ _ limit) => some limit
  | _ => none

/-- Whether a request is cut short, because its member was revoked. -/
def isCut (l : Ledger) (t : Task) : Bool :=
  match t.doing, t.errand with
  | .asking, .ask m _ => l.revoked.contains m.id
  | _, _ => false

/-- What becomes of the ledger and the bell when a task is abandoned: a place that it holds is
given back, and a member that it was to give back is struck out. -/
def abandon (l : Ledger) (t : Task) : Ledger × Ring :=
  match t.errand with
  | .release m => (l.abandon m.id, .once)
  | _ => if t.isCreating then (l.settle, .once) else (l, .none)

end Task

end FaxClient.Pool
