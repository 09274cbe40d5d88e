import FaxClient.Event
import FaxClient.Octets

/-!
# The journal of a transfer

A transfer keeps a journal of all that happens in it, in order.  What it announced, what it read,
and what the sink took is read off the journal.
-/

namespace FaxClient.Transfer

inductive Operation where
  | connect
  | read
  | write
  | flush
  | shutdown
  deriving DecidableEq

inductive Entry where
  | began (operation : Operation)
  | read (block : Octets)
  /-- The sink took octets in one write call. -/
  | took (octets : Octets)
  /-- What a block became was written out whole. -/
  | moved (block out : Octets)
  | flushed
  | shut
  | announced (event : Event)
  | cancelled
  deriving DecidableEq

abbrev Journal := List Entry

namespace Journal

def events (j : Journal) : List Event :=
  j.filterMap fun
    | .announced e => some e
    | _ => none

def input (j : Journal) : Octets :=
  j.flatMap fun
    | .read block => block
    | _ => []

def written (j : Journal) : Octets :=
  j.flatMap fun
    | .took octets => octets
    | _ => []

def flushed (j : Journal) : Bool := j.contains .flushed

def shut (j : Journal) : Bool := j.contains .shut

end Journal

end FaxClient.Transfer
