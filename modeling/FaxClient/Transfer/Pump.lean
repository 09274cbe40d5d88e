import FaxClient.Filter
import FaxClient.Transfer.Journal
import FaxClient.Transfer.Progress

/-!
# Moving payload

Payload is read in blocks, pushed through a filter, and written out whole before more is read.
After the last block the filter is finished, what it gives is written, and the sink is flushed and
shut down.  Before each of these operations the transfer is looked at: once it is cancelled, none
is started any more, and one that is not complete is given up.

Payload counts once the octets it became have been written: for an upload the octets read, for a
download the octets written.  Progress is announced to the listener, which may cancel the transfer
on any event.
-/

namespace FaxClient.Transfer

/-- Whether a listener cancels the transfer on an event; it is given all events up to that one. -/
abbrev Watch := List Event → Bool

structure State where
  cancelled : Bool
  progress : Progress
  /-- The payload that is reported when the transfer ends. -/
  moved : Nat
  calls : Nat
  /-- What has happened, the latest first. -/
  past : List Entry

namespace State

def start (cancelled : Bool) : State := ⟨cancelled, .zero, 0, 0, []⟩

def note (s : State) (e : Entry) : State := { s with past := e :: s.past }

def journal (s : State) : Journal := s.past.reverse

def cancel (s : State) : State := { s.note .cancelled with cancelled := true }

def cancelIf (s : State) (cancels : Bool) : State := if cancels then s.cancel else s

def emit (s : State) (watch : Watch) (e : Event) : State :=
  let s := s.note (.announced e)
  s.cancelIf (watch s.journal.events)

end State

inductive Ending where
  | complete
  | cancelled
  | failed (fault : Fault)
  deriving DecidableEq

structure Job where
  direction : Direction
  filter : Filter
  sink : Sink
  watch : Watch

namespace Job

/-- Starts an operation and waits for it, unless the transfer is cancelled. -/
def await {α : Type} (operation : Operation) (turn : Turn α) (s : State)
    (next : α → State → Ending × State) : Ending × State :=
  if s.cancelled then (.cancelled, s)
  else
    let s := s.note (.began operation)
    match turn with
    | .stalls => (.cancelled, s.cancel)
    | .completes (.error fault) cancels => (.failed fault, s.cancelIf cancels)
    | .completes (.ok a) cancels => next a (s.cancelIf cancels)

/-- The write calls for octets, one after the other until all are taken.  They are one operation:
a call that completes lets the next begin even if the transfer was cancelled meanwhile. -/
def writeCalls (sink : Sink) (octets : Octets) (s : State) : Ending × State :=
  match octets with
  | [] => (.complete, s)
  | b :: rest =>
    let s := { s with calls := s.calls + 1 }
    match sink.write s.calls with
    | .stalls => (.cancelled, s.cancel)
    | .completes (.error fault) cancels => (.failed fault, s.cancelIf cancels)
    | .completes (.ok (some 0)) cancels => (.failed .wroteNothing, s.cancelIf cancels)
    | .completes (.ok (some (k + 1))) cancels =>
      writeCalls sink (rest.drop k) ((s.note (.took (b :: rest.take k))).cancelIf cancels)
    | .completes (.ok none) cancels => (.complete, (s.note (.took (b :: rest))).cancelIf cancels)
termination_by octets.length
decreasing_by exact Nat.lt_succ_of_le (List.drop_sublist k rest).length_le

/-- Writes out whole what a block became, unless the transfer is cancelled. -/
def write (job : Job) (block out : Octets) (s : State) : Ending × State :=
  if s.cancelled then (.cancelled, s)
  else
    match writeCalls job.sink out (s.note (.began .write)) with
    | (.complete, s) => (.complete, s.note (.moved block out))
    | stopped => stopped

/-- Counts payload, and announces progress when it is due; then the payload is to be reported. -/
def advance (job : Job) (n : Nat) (s : State) : State :=
  let (progress, due) := s.progress.advance n
  let s := { s with progress := progress }
  let s := if due then s.emit job.watch (.transfer ⟨.progress, progress.total⟩) else s
  { s with moved := progress.total }

def endSink (job : Job) (s : State) : Ending × State :=
  await .flush job.sink.flush s fun _ s =>
    await .shutdown job.sink.shutdown (s.note .flushed) fun _ s => (.complete, s.note .shut)

/-- After the last block: the filter gives what it still holds, and the sink is ended. -/
def finish (job : Job) (f : job.filter.State) (s : State) : Ending × State :=
  match job.filter.finish f with
  | .error fault => (.failed fault, s)
  | .ok (out, _) =>
    match job.write [] out s with
    | (.complete, s) =>
      job.endSink (match job.direction with
        | .upload => s
        | .download => job.advance out.length s)
    | stopped => stopped

def pump (job : Job) : Source → job.filter.State → State → Ending × State
  | [], f, s => await .read (.now ([] : Octets)) s fun _ s => job.finish f s
  | turn :: rest, f, s =>
    await .read turn s fun block s =>
      if block.isEmpty then job.finish f s
      else
        let s := s.note (.read block)
        match job.filter.push f block with
        | .error fault => (.failed fault, s)
        | .ok (out, f) =>
          match job.write block out s with
          | (.complete, s) =>
            job.pump rest f (job.advance (match job.direction with
              | .upload => block.length
              | .download => out.length) s)
          | stopped => stopped

end Job

end FaxClient.Transfer
