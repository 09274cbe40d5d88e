import FaxClient.Control
import FaxClient.Transfer.FileName
import FaxClient.Transfer.Surroundings
import FaxClient.Transfer.Task

/-!
# Storing and retrieving documents

A document is moved by one exchange over the control connection: the representation and the mode
are set, the data connection is arranged, and a verb asks the server for the transfer.  The transfer
runs on a task of its own, which is started before the verb is sent.

The server answers the verb twice, before the transfer and after it.  The second reply is read even
if the transfer failed, so that it is not taken for the answer to the next command.  If there is no
first reply, or it is not preliminary, the transfer is cancelled, however far it has come by then,
and what came of it does not count.
-/

namespace FaxClient.Transfer

structure Options where
  settings : Settings
  side : Side

def Options.default : Options := ⟨.default, .passive⟩

inductive Target where
  /-- The server chooses one. -/
  | temporary
  | named (name : String)
  deriving DecidableEq

def Target.command : Target → Command
  | .temporary => ⟨"STOT", none⟩
  | .named name => ⟨"STOR", some name⟩

def Target.name? : Target → Option String
  | .temporary => none
  | .named name => some name

def retrieval (path : String) : Command := ⟨"RETR", some path⟩

/-- A data connection that is arranged but not yet made: where the listener is, or where to
connect to. -/
structure Arranged where
  side : Side
  address : Address

/-- What a call has started for a document, as the call leaves it. -/
inductive Venture where
  | nothing
  /-- The listener of an active transfer could not be opened. -/
  | unbound (fault : Fault)
  | task (t : Task)

/-- What is known of a transfer when the call is over. -/
def Venture.report : Venture → Option Report
  | .nothing => none
  | .unbound fault => some (bindFailure fault)
  | .task t => t.report

structure Moved (α : Type) where
  result : Except Error α
  venture : Venture

def Moved.report {α : Type} (m : Moved α) : Option Report := m.venture.report

structure Handling where
  options : Options
  codec : Codec
  listen : Ip → Except Fault Address
  opening : Arranged → Opening
  source : Source
  sink : Sink
  watch : Watch
  breakdown : Option Breakdown := none
  /-- The course of a transfer whose verb is refused or fails.  The call cancels it at some moment of
  it; if nothing is known of it, before it first runs. -/
  unwanted : Arranged → Course := fun a => ⟨opening a, source, sink, watch, true, none⟩

namespace Handling

variable {σ : Type} [Control σ]

def negotiate {α : Type} (x : Exchange σ α) (c : σ) : Except Error α × σ :=
  match x c with
  | (.ok a, c) => (.ok a, c)
  | (.error e, c) => (.error (.command e), c)

def setTerms (h : Handling) : Exchange σ Unit := do
  Control.setRepresentation h.options.settings.representation
  Control.setMode h.options.settings.mode

/-- The address on which a listener is opened: that of this side of the control connection, if it
is known. -/
def listenAddress (c : σ) : Ip :=
  match Control.localAddress? c with
  | some a => a.ip
  | none => .v4 .unspecified

def arrange (h : Handling) (c : σ) : Except Error Arranged × σ :=
  match h.options.side with
  | .passive =>
    match negotiate Control.pasv c with
    | (.ok e, c) => (.ok ⟨.passive, .v4 e⟩, c)
    | (.error e, c) => (.error e, c)
  | .active =>
    match h.listen (listenAddress c) with
    | .error fault => (.error (.bind fault), c)
    | .ok a =>
      match negotiate (Control.port a) c with
      | (.ok (), c) => (.ok ⟨.active, a⟩, c)
      | (.error e, c) => (.error e, c)

def prepare (h : Handling) (c : σ) : Except Error Arranged × σ :=
  match negotiate h.setTerms c with
  | (.ok (), c) => h.arrange c
  | (.error e, c) => (.error e, c)

/-- The course of a transfer whose verb is answered with a preliminary reply. -/
def wanted (h : Handling) (a : Arranged) : Course :=
  ⟨h.opening a, h.source, h.sink, h.watch, false, h.breakdown⟩

/-- What comes of the transfer, by whether the call cancels it. -/
def worker (h : Handling) (direction : Direction) (a : Arranged) (cancelled : Bool) : Report :=
  (if cancelled then h.unwanted a else h.wanted a).report h.options.settings a.side direction h.codec

structure Exchanged where
  first : Reply
  outcome : Outcome
  last : Reply

/-- What both replies and the transfer amount to: an error of the transfer counts before one of
the last reply, and the last reply must say that it was completed unless it was cancelled. -/
def conclude (first : Reply) (result : Except Error Outcome)
    (last : Except ExchangeError Reply) : Except Error Exchanged := do
  let outcome ← result
  let last ← last.mapError .command
  if outcome.cancelled then return ⟨first, outcome, last⟩
  else
    let last ← (last.expectClass .completion).mapError .command
    return ⟨first, outcome, last⟩

/-- Sends the verb while the transfer is on its way, and waits for the end of both. -/
def exchange (verb : Command) (task : Task) (c : σ) : Moved Exchanged × σ :=
  match Control.request verb c with
  | (.error e, c) =>
    let (_, task) := task.cancel.join
    (⟨.error (.command e), .task task⟩, c)
  | (.ok first, c) =>
    if first.isPreliminary then
      let (result, task) := task.join
      let (last, c) := Control.read c
      (⟨conclude first result last, .task task⟩, c)
    else
      let (_, task) := task.cancel.join
      (⟨.error (.command (.unexpected first)), .task task⟩, c)

def move (h : Handling) (direction : Direction) (verb : Command) (c : σ) : Moved Exchanged × σ :=
  match h.prepare c with
  | (.ok a, c) => exchange verb (.spawn (h.worker direction a)) c
  | (.error (.bind fault), c) => (⟨.error (.bind fault), .unbound fault⟩, c)
  | (.error e, c) => (⟨.error e, .nothing⟩, c)

structure Stored where
  file : String
  outcome : Outcome

/-- The name of a stored document: the one in the first reply, or else in the last, or else the
one that was asked for. -/
def fileName (target : Target) (x : Exchanged) : Except Error Stored :=
  match (FileName.ofText? x.first.text).or ((FileName.ofText? x.last.text).or target.name?) with
  | some file => .ok ⟨file, x.outcome⟩
  | none => .error (.command (.malformed ("no file name in \"" ++ x.first.summary ++ "\"")))

def store (h : Handling) (target : Target) (c : σ) : Moved Stored × σ :=
  let (moved, c) := h.move .upload target.command c
  (⟨moved.result.bind (fileName target), moved.venture⟩, c)

def retrieve (h : Handling) (path : String) (c : σ) : Moved Outcome × σ :=
  let (moved, c) := h.move .download (retrieval path) c
  (⟨moved.result.map Exchanged.outcome, moved.venture⟩, c)

end Handling

end FaxClient.Transfer
