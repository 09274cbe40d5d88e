import FaxClient.Pool.Schedule

/-!
# A scripted pool

A script says what callers do with a pool one after the other, and which of their requests
go on in the background.  A request in the background is a job.  Callers hold members by name.
-/

namespace FaxClient.Pool.Script

inductive Request where
  /-- A member that comes of it is held by the name. -/
  | call (call : Call) (name : String)
  /-- What is done with the member of this name; the reply must have one of the codes, if any are
  given. -/
  | use (name : String) (use : Use) (codes : Option (List Nat))

inductive Step where
  | run (request : Request)
  | launch (job : String) (request : Request)
  | letGo (name : String)
  | invalidate (name : String)
  | info (name : String)
  | kill (line : Line)
  | connects (cs : List Connect)
  | letThrough (a : Arrival)
  | poll (job : String)
  | join (job : String)
  | abandon (job : String)

structure Info where
  member : Member
  valid : Bool
  isOpen : Bool
  localAddress? : Option Address

inductive Result where
  | done
  | acquired (id : MemberId)
  | refused (e : Error)
  | tallied (t : Tally)
  | replied (r : Reply)
  | failed (e : ExchangeError)
  | info (i : Info)
  | noMember
  | noJob
  | launched
  | pending
  | abandoned
  /-- A job that was to be abandoned was over. -/
  | over
  /-- The call would never end. -/
  | stuck

structure Job where
  task : TaskId
  name : String
  codes : Option (List Nat)
  /-- Whether only success matters, and not the reply. -/
  plain : Bool

structure State where
  schedule : Schedule
  names : List (String × MemberId)
  jobs : List (String × Job)

namespace State

def start (connects : List Connect) : State := ⟨.start connects, [], []⟩

def forget (st : State) (name : String) : State :=
  { st with names := st.names.filter (·.1 != name) }

/-- Lets go of a member without giving it back. -/
def letGo (s : Settings) (st : State) (id : MemberId) : State :=
  { st with schedule := st.schedule.act s (.letGo id) }

/-- Holds a member by a name; a member that was held by it is let go of. -/
def hold (s : Settings) (st : State) (name : String) (id : MemberId) : State :=
  let st := match st.names.lookup name with
    | some old => st.letGo s old
    | none => st
  { st.forget name with names := (name, id) :: (st.forget name).names }

def handed? : Outcome → Option MemberId
  | .acquired m | .answered m _ | .left m _ => some m.id
  | .refused _ | .released | .tallied _ => none

def result (job : Job) : Outcome → Result
  | .acquired m => .acquired m.id
  | .refused e => .refused e
  | .released => .done
  | .tallied t => .tallied t
  | .answered _ r =>
    let checked := match job.codes with
      | some codes => r.bind (Reply.expect · codes)
      | none => r
    match checked with
    | .ok r => if job.plain then .done else .replied r
    | .error e => .failed e
  | .left _ (.ok ()) => .done
  | .left _ (.error e) => .failed e

def take (s : Settings) (st : State) (job : Job) (o : Outcome) : Result × State :=
  (result job o, match handed? o with
    | some id => st.hold s job.name id
    | none => st)

/-- Begins a request, unless it is about a member that nobody holds. -/
def begin (s : Settings) (st : State) (front : Bool) : Request → Option (Job × State)
  | .call call name =>
    let (t, schedule) := st.schedule.begin s front (.begin · call)
    some (⟨t, name, none, false⟩, { st with schedule := schedule })
  | .use name use codes =>
    match st.names.lookup name with
    | none => none
    | some id =>
      let (t, schedule) := st.schedule.begin s front (.use · id use)
      some (⟨t, name, codes, codes.isSome⟩, { st.forget name with schedule := schedule })

def outcome? (st : State) (job : Job) : Option Outcome :=
  st.schedule.world.finished.lookup job.task

def await (s : Settings) (st : State) (job : Job) : Result × State :=
  let done := fun (w : World) => (w.finished.lookup job.task).isSome
  let st := { st with
    schedule := { st.schedule.await s done Schedule.effort with front := none } }
  match st.outcome? job with
  | some o => st.take s job o
  | none => (.stuck, st)

def info (st : State) (id : MemberId) : Result :=
  let w := st.schedule.world
  match w.holding? id with
  | none => .noMember
  | some m =>
    let isOpen := w.isOpen m.line && !w.ledger.revoked.contains id
    .info ⟨m, w.ledger.usable w.isOpen m, isOpen, (st.schedule.session m.line).localAddress?⟩

def onMember (st : State) (name : String) (f : MemberId → Result × State) : Result × State :=
  match st.names.lookup name with
  | some id => f id
  | none => (.noMember, st)

def onJob (st : State) (name : String) (f : Job → State → Result × State) : Result × State :=
  match st.jobs.lookup name with
  | some job => f job { st with jobs := st.jobs.filter (·.1 != name) }
  | none => (.noJob, st)

def step (s : Settings) (st : State) : Step → Result × State
  | .run request =>
    match st.begin s true request with
    | some (job, st) => st.await s job
    | none => (.noMember, st)
  | .launch name request =>
    match st.begin s false request with
    | some (job, st) => (.launched, { st with jobs := (name, job) :: st.jobs.filter (·.1 != name) })
    | none => (.noMember, st)
  | .letGo name => st.onMember name fun id => (.done, (st.forget name).letGo s id)
  | .invalidate name => st.onMember name fun id =>
    (.done, { st with schedule := st.schedule.act s (.invalidate id) })
  | .info name => st.onMember name fun id => (st.info id, st)
  | .kill line =>
    if st.schedule.world.lines.contains line then
      (.done, { st with schedule := st.schedule.act s (.die line) })
    else (.done, st)
  | .connects cs => (.done, { st with schedule := { st.schedule with connects := cs } })
  | .letThrough a => (.done, { st with schedule := st.schedule.letThrough a })
  | .poll name => st.onJob name fun job rest =>
    match st.outcome? job with
    | some o => rest.take s job o
    | none => (.pending, st)
  | .join name => st.onJob name fun job rest => rest.await s job
  | .abandon name => st.onJob name fun job rest =>
    match st.outcome? job with
    | some o => (.over, (handed? o).elim rest (rest.letGo s))
    | none =>
      let lent := ((st.schedule.world.task? job.task).bind Task.lent?).map Member.id
      let rest := { rest with schedule := rest.schedule.abandon s job.task }
      (.abandoned, lent.elim rest (rest.letGo s))

end State

inductive Entry where
  | connected (line : Line)
  | sent (line : Line) (command : Command)
  | closed (line : Line)

/-- Entries for what was asked, after so many connections; reads leave none. -/
def entries : Nat → List Query → List Entry
  | _, [] => []
  | n, .connect :: rest => .connected ⟨n + 1⟩ :: entries (n + 1) rest
  | n, .send line command :: rest => .sent line command :: entries n rest
  | n, .read _ :: rest => entries n rest
  | n, .close line :: rest => .closed line :: entries n rest

/-- What came of a step, what was asked in the course of it, and how the pool stands after it. -/
structure Report where
  result : Result
  log : List Entry
  ledger : Ledger

/-- One step, after which the jobs go on until none can. -/
def report (s : Settings) (st : State) (step : Step) : Report × State :=
  let before := st.schedule.world.asked
  let (result, st) := st.step s step
  let st := { st with schedule := st.schedule.drain s Schedule.effort }
  let w := st.schedule.world
  let log := entries (before.countP (· == .connect)) (w.asked.drop before.length)
  (⟨result, log, w.ledger⟩, st)

def run (s : Settings) (st : State) : List Step → List Report
  | [] => []
  | step :: rest =>
    let (r, st) := report s st step
    r :: run s st rest

end FaxClient.Pool.Script
