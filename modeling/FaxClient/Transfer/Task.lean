import FaxClient.Transfer.Run

/-!
# Transfers on tasks of their own

A transfer may run on a task of its own, beside the call that started it.  The call can cancel it,
and can wait for its end.  How far the transfer has come when it is cancelled is up to its course: it
may not have begun yet, it may be in the middle of anything, and it may be over.

A task may also break down.  Then the transfer does nothing more, and whoever waits for its end
learns of this.
-/

namespace FaxClient.Transfer

structure Breakdown where
  /-- How many entries there are in the journal by then. -/
  entries : Nat
  what : String

/-- What a transfer meets with on its task. -/
structure Course where
  opening : Opening
  source : Source
  sink : Sink
  watch : Watch
  /-- Whether it is cancelled before it first runs. -/
  cancelled : Bool
  breakdown : Option Breakdown

/-- What has come of a transfer when its task breaks down. -/
def Report.brokenDown (cancelled : Bool) (r : Report) (b : Breakdown) : Report :=
  let journal := r.journal.take b.entries
  ⟨.error (.worker b.what), journal, cancelled || journal.contains .cancelled⟩

def Course.report (c : Course) (settings : Settings) (side : Side) (direction : Direction)
    (codec : Codec) : Report :=
  let whole := Plan.run ⟨settings, side, direction, codec, c.source, c.sink, c.watch⟩ c.opening
    c.cancelled
  match c.breakdown with
  | none => whole
  | some b => whole.brokenDown c.cancelled b

structure Task where
  /-- What comes of the transfer if the call cancels it, and if it does not. -/
  fate : Bool → Report
  cancelled : Bool
  /-- What has come of it, if its end was waited for. -/
  report : Option Report

namespace Task

def spawn (fate : Bool → Report) : Task := ⟨fate, false, none⟩

def cancel (t : Task) : Task := { t with cancelled := true }

/-- Waits for the end of the transfer. -/
def join (t : Task) : Except Error Outcome × Task :=
  let r := t.fate t.cancelled
  (r.result, { t with report := some r })

end Task

end FaxClient.Transfer
