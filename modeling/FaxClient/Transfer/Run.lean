import FaxClient.Filter.Direction
import FaxClient.Transfer.Error
import FaxClient.Transfer.Pump

/-!
# A transfer from beginning to end

First the data connection is waited for, no longer than the settings allow.  If it is made, the
listener sees it opened and the transfer started, then progress, and at last, whatever happened,
the transfer completed and the connection closed.  If it is not made, the listener sees that it
failed and that the transfer was aborted.
-/

namespace FaxClient.Transfer

inductive Opening where
  | turn (peer : Turn Address)
  | timesOut

structure Report where
  result : Except Error Outcome
  journal : Journal
  /-- Whether it was cancelled at any time. -/
  cancelled : Bool

namespace Report

def events (r : Report) : List Event := r.journal.events

def written (r : Report) : Octets := r.journal.written

end Report

structure Plan where
  settings : Settings
  side : Side
  direction : Direction
  codec : Codec
  source : Source
  sink : Sink
  watch : Watch

namespace Plan

def filter (p : Plan) : Filter :=
  match p.direction with
  | .upload => Filter.outbound p.codec p.settings.representation p.settings.mode
  | .download => Filter.inbound p.codec p.settings.representation p.settings.mode

def job (p : Plan) : Job := ⟨p.direction, p.filter, p.sink, p.watch⟩

def timeoutError (p : Plan) : Error :=
  match p.side with
  | .active => .acceptTimeout p.settings.timeout
  | .passive => .connectTimeout p.settings.timeout

/-- Waits for the data connection, unless the transfer is cancelled already. -/
def establish (p : Plan) (opening : Opening) (s : State) : Except Error Address × State :=
  if s.cancelled then (.error .cancelled, s)
  else
    let s := s.note (.began .connect)
    match opening with
    | .timesOut => (.error p.timeoutError, s)
    | .turn .stalls => (.error .cancelled, s.cancel)
    | .turn (.completes (.error fault) cancels) => (.error (.connect fault), s.cancelIf cancels)
    | .turn (.completes (.ok peer) cancels) => (.ok peer, s.cancelIf cancels)

def result (ending : Ending) (moved : Nat) : Except Error Outcome :=
  match ending with
  | .complete => .ok ⟨moved, false⟩
  | .cancelled => .ok ⟨moved, true⟩
  | .failed fault => .error (.truncated moved fault)

def report (r : Except Error Outcome) (s : State) : Report := ⟨r, s.journal, s.cancelled⟩

/-- Runs a transfer; `cancelled` tells whether it was cancelled before it started. -/
def run (p : Plan) (opening : Opening) (cancelled : Bool) : Report :=
  match p.establish opening (.start cancelled) with
  | (.error e, s) =>
    let s := s.emit p.watch (.connection (.failed e.message))
    report (.error e) (s.emit p.watch (.transfer ⟨.aborted, 0⟩))
  | (.ok peer, s) =>
    let s := s.emit p.watch (.connection (.opened peer))
    let s := s.emit p.watch (.transfer ⟨.started, 0⟩)
    let (ending, s) := p.job.pump p.source p.filter.start s
    let r := result ending s.moved
    let s := s.emit p.watch (.transfer ⟨.completed, s.moved⟩)
    report r (s.emit p.watch (.connection (.closed peer)))

end Plan

/-- The listener for an active transfer could not be opened: the listener of events sees that it
failed, and there is no transfer. -/
def bindFailure (fault : Fault) : Report :=
  ⟨.error (.bind fault), [.announced (.connection (.failed fault.text))], false⟩

end FaxClient.Transfer
