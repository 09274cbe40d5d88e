import FaxClient.Pool.World

/-!
# Taking turns

A schedule picks, of all that could happen to a pool next, what does happen, when it is known how
the sessions behave:

* a task goes on until it has to wait;
* the tasks that can go on take turns in the order in which they were woken, and the one in front,
  which the caller waits for, goes on when no other can;
* time passes only when nothing can go on, and then to the next moment at which somebody is tired
  of waiting.
-/

namespace FaxClient.Pool

structure Session where
  /-- The answers to certain verbs; none stands for no answer at all. -/
  replies : List (String × Option (Except ExchangeError Reply))
  /-- What comes of closing it; none if that never ends. -/
  closing : Option (Except ExchangeError Unit)
  localAddress? : Option Address

namespace Session

def usual : Session := ⟨[], some (.ok ()), none⟩

def usualReply : String → Option (Except ExchangeError Reply)
  | "USER" => some (.ok ⟨331, "Password required."⟩)
  | "PASS" | "ADMIN" => some (.ok ⟨230, "User logged in."⟩)
  | "TZONE" | "NOOP" | "TYPE" | "MODE" => some (.ok ⟨200, "OK."⟩)
  | "QUIT" => some (.ok ⟨221, "Goodbye."⟩)
  | "READ" => some (.ok ⟨226, "Transfer complete."⟩)
  | "HANG" => none
  | _ => some (.ok ⟨500, "Command not recognized."⟩)

def reply (s : Session) (verb : String) : Option (Except ExchangeError Reply) :=
  (s.replies.lookup verb).getD (usualReply verb)

def answer (s : Session) : Option Command → Option (Except ExchangeError Reply)
  | some command => s.reply command.verb
  | none => s.reply "READ"

end Session

inductive Arrival where
  | session (s : Session)
  | refusal (e : ExchangeError)

inductive Connect where
  | now (a : Arrival)
  /-- It waits at a gate until it is let through. -/
  | gate

structure Dialing where
  task : TaskId
  line : Line
  arrival : Option Arrival

structure Schedule where
  world : World
  connects : List Connect
  dialing : List Dialing
  /-- What was let through the gate before anybody waited there. -/
  passes : List Arrival
  sessions : List (Line × Session)
  dialed : Nat
  launched : Nat
  front : Option TaskId
  /-- The other tasks that can go on, the one woken first in front. -/
  queue : List TaskId
  due : List TaskId

namespace Schedule

def start (connects : List Connect) : Schedule :=
  ⟨.start, connects, [], [], [], 0, 0, none, [], []⟩

def session (st : Schedule) (line : Line) : Session := (st.sessions.lookup line).getD .usual

/-! ## What tasks wait for -/

def arrive (st : Schedule) (line : Line) : Arrival → Signal × Schedule
  | .session s => (.connected line, { st with sessions := (line, s) :: st.sessions })
  | .refusal e => (.unconnected e, st)

def dial (st : Schedule) (t : TaskId) : Option Signal × Schedule :=
  let line : Line := ⟨st.dialed + 1⟩
  let connect := st.connects.headD (.now (.session .usual))
  let st := { st with dialed := line.number, connects := st.connects.tail }
  let come := fun (st : Schedule) (a : Arrival) =>
    let (signal, st) := st.arrive line a
    (some signal, st)
  match connect, st.passes with
  | .now a, _ => come st a
  | .gate, a :: passes => come { st with passes := passes } a
  | .gate, [] => (none, { st with dialing := st.dialing ++ [⟨t, line, none⟩] })

def dialed? (st : Schedule) (t : TaskId) : Option Signal × Schedule :=
  match st.dialing.find? (·.task == t) with
  | none => st.dial t
  | some ⟨_, _, none⟩ => (none, st)
  | some ⟨_, line, some a⟩ =>
    let (signal, st) := st.arrive line a
    (some signal, { st with dialing := st.dialing.filter (·.task != t) })

def signal? (st : Schedule) (t : TaskId) (task : Task) : Option Signal × Schedule :=
  let late := if st.due.contains t then some Signal.late else none
  match task.doing, task.errand with
  | .ready, _ | .discarding _, _ | .creating (.ended _), _ => (some .go, st)
  | .creating (.connecting _), _ => st.dialed? t
  | .creating (.loggingIn m request _), _ =>
    (((st.session m.line).reply request.command.verb).map .replied, st)
  | .creating (.closing m _ _), _ | .closing m _, _ =>
    (((st.session m.line).closing.map .closed).or late, st)
  | .parked _, _ => (if st.world.bell.isAwake t then some .rung else late, st)
  | .asking, .ask m command =>
    if task.isCut st.world.ledger then (some .cut, st)
    else (((st.session m.line).answer command).map .replied, st)
  | .leaving, .leave m => ((st.session m.line).closing.map .closed, st)
  | .asking, _ | .leaving, _ => (none, st)

def canGoOn (st : Schedule) (t : TaskId) : Bool :=
  match st.world.task? t with
  | some task => (st.signal? t task).1.isSome
  | none => false

/-! ## Turns -/

def enqueue (st : Schedule) (ts : List TaskId) : Schedule :=
  { st with queue := ts.foldl (fun queue t =>
      if queue.contains t || st.front == some t then queue else queue ++ [t]) st.queue }

/-- Puts those in the queue whom what has just happened lets go on. -/
def rouse (st : Schedule) : Schedule :=
  let cut := (st.world.tasks.filter fun (_, task) => task.isCut st.world.ledger).map (·.1)
  st.enqueue (cut ++ st.world.bell.woken ++ st.world.bell.roused)

def act (s : Settings) (st : Schedule) (a : Action) : Schedule :=
  match st.world.act s a with
  | some w => { st with world := w }.rouse
  | none => st

def advance (s : Settings) (st : Schedule) (t : TaskId) : Bool × Schedule :=
  match st.world.task? t with
  | none => (false, st)
  | some task =>
    match st.signal? t task with
    | (none, st) => (false, st)
    | (some signal, st) =>
      (true, { st with due := st.due.erase t }.act s (.advance t signal))

def goOn (s : Settings) (t : TaskId) : Nat → Schedule → Schedule
  | 0, st => st
  | steps + 1, st =>
    match st.advance s t with
    | (true, st) => goOn s t steps st
    | (false, st) => st

def effort : Nat := 1000000

def drain (s : Settings) : Nat → Schedule → Schedule
  | 0, st => st
  | turns + 1, st =>
    match st.queue with
    | [] => st
    | t :: rest => drain s turns ({ st with queue := rest }.goOn s t effort)

/-- Until when tasks wait at most, those who have waited longest for the bell in front. -/
def limits (st : Schedule) : List (TaskId × Time) :=
  let waiting := st.world.bell.waiting
  let rest := (st.world.tasks.map (·.1)).filter fun t => !waiting.contains t
  (waiting ++ rest).filterMap fun t => do
    let task ← st.world.task? t
    return (t, ← task.limit?)

/-- Time passes to the next limit; one that is already reached takes the shortest time there is. -/
def passTime? (s : Settings) (st : Schedule) : Option Schedule :=
  let limits := st.limits.mergeSort fun a b => a.2 ≤ b.2
  match limits with
  | [] => none
  | (_, first) :: _ =>
    let now := max first (st.world.now + 1)
    let due := (limits.filter fun l => l.2 ≤ now).map (·.1)
    some ({ st.act s (.wait now) with due := due }.enqueue due)

/-- Everybody takes turns, and time passes, until the caller has what it waits for. -/
def await (s : Settings) (done : World → Bool) : Nat → Schedule → Schedule
  | 0, st => st
  | turns + 1, st =>
    let go := fun (st : Schedule) => match st.front with
      | some t => st.goOn s t effort
      | none => st
    let st := go st
    if done st.world then st
    else
      let st := st.drain s effort
      if (st.front.map st.canGoOn).getD (done st.world) then await s done turns st
      else
        match st.passTime? s with
        | some st => await s done turns st
        | none => st

/-! ## What the script does to it -/

/-- Begins a call; it goes on at once if it is in front, and else as soon as it is its turn. -/
def begin (s : Settings) (st : Schedule) (front : Bool) (action : TaskId → Action) :
    TaskId × Schedule :=
  let t : TaskId := ⟨st.launched + 1⟩
  let st := { st with launched := t.number, front := if front then some t else none }
  let st := st.act s (action t)
  (t, if front then st else st.enqueue [t])

/-- Lets the connection through that has waited longest at the gate, or the next one there. -/
def letThrough (st : Schedule) (a : Arrival) : Schedule :=
  match st.dialing.find? (·.arrival.isNone) with
  | some d =>
    let through := fun (e : Dialing) => if e.task = d.task then { e with arrival := some a } else e
    { st with dialing := st.dialing.map through }.enqueue [d.task]
  | none => { st with passes := st.passes ++ [a] }

def abandon (s : Settings) (st : Schedule) (t : TaskId) : Schedule :=
  { st with dialing := st.dialing.filter (·.task != t) }.act s (.abandon t)

end Schedule

end FaxClient.Pool
