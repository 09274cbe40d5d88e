import FaxClient.Pool.Task

/-!
# A pool among its callers

The whole of a pool at one moment: its ledger, its bell, the tasks under way, the members in the
hands of callers, and the sessions.  Everything that can happen to it is an action; a run is any
sequence of actions, so tasks are interleaved, abandoned and kept waiting in every way there is.

What is asked of the sessions is noted, in order.
-/

namespace FaxClient.Pool

inductive Query where
  | connect
  | send (line : Line) (command : Command)
  | read (line : Line)
  | close (line : Line)
  deriving DecidableEq

def Task.query? (t : Task) : Option Query :=
  match t.doing, t.errand with
  | .creating (.connecting _), _ => some .connect
  | .creating (.loggingIn m request _), _ => some (.send m.line request.command)
  | .creating (.closing m _ _), _ => some (.close m.line)
  | .closing m _, _ => some (.close m.line)
  | .asking, .ask m (some command) => some (.send m.line command)
  | .asking, .ask m none => some (.read m.line)
  | .leaving, .leave m => some (.close m.line)
  | _, _ => none

structure World where
  now : Time
  ledger : Ledger
  bell : Bell
  /-- The tasks under way, the oldest first. -/
  tasks : List (TaskId × Task)
  finished : List (TaskId × Outcome)
  held : List Member
  /-- Every session that was ever connected. -/
  lines : List Line
  /-- The sessions that are not open any more. -/
  dead : List Line
  asked : List Query

inductive Use where
  | release
  | ask (command : Option Command)
  | leave

def Use.errand (m : Member) : Use → Errand
  | .release => .release m
  | .ask command => .ask m command
  | .leave => .leave m

inductive Call where
  | acquire
  | start
  | stop
  | restart

inductive Action where
  | begin (t : TaskId) (call : Call)
  | use (t : TaskId) (id : MemberId) (use : Use)
  | advance (t : TaskId) (signal : Signal)
  /-- A task is abandoned; a member that was lent to it goes back to its holder. -/
  | abandon (t : TaskId)
  /-- A caller lets go of a member without giving it back. -/
  | letGo (id : MemberId)
  | invalidate (id : MemberId)
  | die (line : Line)
  | wait (time : Time)

namespace World

def start : World := ⟨0, .empty, .silent, [], [], [], [], [], []⟩

def isOpen (w : World) (line : Line) : Bool := !w.dead.contains line

def task? (w : World) (t : TaskId) : Option Task := w.tasks.lookup t

def without (w : World) (t : TaskId) : World := { w with tasks := w.tasks.filter (·.1 != t) }

def isFresh (w : World) (t : TaskId) : Bool :=
  (w.tasks.lookup t).isNone && (w.finished.lookup t).isNone

def holding? (w : World) (id : MemberId) : Option Member := w.held.find? (·.id == id)

def notHolding (w : World) (id : MemberId) : World := { w with held := w.held.filter (·.id != id) }

/-- Notes what a task asks; a session that is asked to close is not open any more. -/
def note (w : World) (task : Task) : World :=
  match task.query? with
  | none => w
  | some (.close line) => { w with asked := w.asked ++ [.close line], dead := w.dead.insert line }
  | some q => { w with asked := w.asked ++ [q] }

/-- A task as it is from now on.  One that begins to wait for the bell may find a ring pending. -/
def put (w : World) (t : TaskId) (task : Task) : World :=
  let replace := fun (w : World) (task : Task) =>
    { w with tasks := w.tasks.map fun p => if p.1 = t then (t, task) else p }
  match task.doing with
  | .parked _ =>
    let (waits, bell) := w.bell.wait t
    replace { w with bell := bell } (if waits then task else { task with doing := .ready })
  | _ => (replace w task).note task

def finish (w : World) (t : TaskId) (o : Outcome) : World :=
  let w := { w.without t with finished := w.finished ++ [(t, o)] }
  match o with
  | .acquired m | .answered m _ | .left m _ => { w with held := w.held ++ [m] }
  | .refused _ | .released | .tallied _ => w

def admits (w : World) (t : TaskId) : Signal → Bool
  | .connected line => !w.lines.contains line
  | .rung => w.bell.isAwake t
  | _ => true

def linesAfter (w : World) : Signal → List Line
  | .connected line => line :: w.lines
  | _ => w.lines

def after (w : World) (t : TaskId) (signal : Signal) (step : Step) : World :=
  let w := { w with
    ledger := step.ledger
    lines := w.linesAfter signal
    bell := (w.bell.leave t).ring step.ring }
  match step.progress with
  | .running task => w.put t task
  | .finished o => w.finish t o

def launch (w : World) (t : TaskId) (errand : Errand) : World :=
  { w with tasks := w.tasks ++ [(t, ⟨errand, .ready⟩)] }

def errand (s : Settings) (w : World) : Call → Errand
  | .acquire => .acquire (w.now + s.blockingTimeout)
  | .start => .start
  | .stop => .stop
  | .restart => .restart

/-- What an action makes of the world; none if it cannot happen in it. -/
def act (s : Settings) (w : World) : Action → Option World
  | .begin t call => if w.isFresh t then some (w.launch t (w.errand s call)) else none
  | .use t id use =>
    match w.isFresh t, w.holding? id with
    | true, some m => some ((w.notHolding id).launch t (use.errand m))
    | _, _ => none
  | .advance t signal =>
    match w.task? t with
    | none => none
    | some task =>
      if w.admits t signal then (task.step s w.now w.isOpen w.ledger signal).map (w.after t signal)
      else none
  | .abandon t =>
    match w.task? t with
    | none => none
    | some task =>
      let (ledger, ring) := task.abandon w.ledger
      some { w.without t with
        ledger := ledger
        bell := (w.bell.desert t).ring ring
        held := w.held ++ task.lent?.toList }
  | .letGo id =>
    match w.holding? id with
    | none => none
    | some _ =>
      some { w.notHolding id with ledger := w.ledger.abandon id, bell := w.bell.ring .once }
  | .invalidate id =>
    match w.holding? id with
    | none => none
    | some _ =>
      some { w with held := w.held.map fun m => if m.id = id then { m with valid := false } else m }
  | .die line => some { w with dead := w.dead.insert line }
  | .wait time => if w.now ≤ time then some { w with now := time } else none

def run (s : Settings) : World → List Action → Option World
  | w, [] => some w
  | w, a :: rest => (w.act s a).bind fun w => run s w rest

def Reachable (s : Settings) (w : World) : Prop := ∃ actions, run s start actions = some w

end World

end FaxClient.Pool
