import FaxClient.Duration
import FaxClient.Fault
import FaxClient.Octets
import FaxClient.Representation

/-!
# Transfers

The terms of a transfer, what comes of it, and what the operations it waits for may do.

Whatever a transfer waits for can be cut short by a cancellation.  A `Turn` says how one such
operation turns out: it completes, and perhaps the transfer is cancelled in the same moment; or it
is not complete before the transfer is cancelled.
-/

namespace FaxClient.Transfer

structure Settings where
  representation : Representation
  mode : Mode
  timeout : Duration

def Settings.default : Settings := ⟨.image, .stream, .ofSeconds 30⟩

/-- Who makes the data connection: `active` waits for the server, `passive` connects to it. -/
inductive Side where
  | active
  | passive
  deriving DecidableEq

inductive Direction where
  | upload
  | download
  deriving DecidableEq

structure Outcome where
  /-- The payload moved at the caller's end. -/
  bytes : Nat
  /-- Whether the transfer was cancelled once the connection was there. -/
  cancelled : Bool
  deriving DecidableEq

inductive Turn (α : Type) where
  /-- It completes; `cancels` tells whether the transfer is cancelled while it does. -/
  | completes (result : Except Fault α) (cancels : Bool)
  /-- It is not complete before the transfer is cancelled. -/
  | stalls

def Turn.now {α : Type} (a : α) : Turn α := .completes (.ok a) false

/-- Where payload comes from: one turn for each read.  A read of nothing ends it, and so does the
end of the list. -/
abbrev Source := List (Turn Octets)

/-- The number of octets after which progress is announced, and the most that one read gives. -/
def blockSize : Nat := 1024

def Source.ofOctets (octets : Octets) : Source := (octets.pieces (blockSize - 1)).map .now

structure Sink where
  /-- How many octets the write calls take, counted from 1; `none` stands for all on offer. -/
  write : Nat → Turn (Option Nat)
  flush : Turn Unit
  shutdown : Turn Unit

def Sink.ready : Sink := ⟨fun _ => .now none, .now (), .now ()⟩

end FaxClient.Transfer
