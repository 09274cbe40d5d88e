/-!
# The bell

Callers in want of a member wait for the bell.  To ring once wakes the one that has waited
longest; if nobody waits, the next to wait goes on at once, but only one.  To ring for all wakes
everybody who waits, and nobody who comes later.  Whoever was woken by a single ring and leaves
before going on passes it on.
-/

namespace FaxClient.Pool

structure TaskId where
  number : Nat
  deriving DecidableEq

structure Bell where
  /-- Whether it was rung once while nobody waited. -/
  pending : Bool
  /-- Those who wait, the longest first. -/
  waiting : List TaskId
  /-- Those whom a single ring woke and who have not gone on. -/
  woken : List TaskId
  /-- Those whom a ring for all woke and who have not gone on. -/
  roused : List TaskId

inductive Ring where
  | none
  | once
  | all
  deriving DecidableEq

namespace Bell

def silent : Bell := ⟨false, [], [], []⟩

def ring (b : Bell) : Ring → Bell
  | .none => b
  | .once =>
    match b.waiting with
    | t :: rest => { b with waiting := rest, woken := b.woken ++ [t] }
    | [] => { b with pending := true }
  | .all => { b with waiting := [], roused := b.roused ++ b.waiting }

/-- Begins to wait, unless a ring is pending: then that is used up, and there is no wait. -/
def wait (b : Bell) (t : TaskId) : Bool × Bell :=
  if b.pending then (false, { b with pending := false })
  else (true, { b with waiting := b.waiting ++ [t] })

def isAwake (b : Bell) (t : TaskId) : Bool := b.woken.contains t || b.roused.contains t

def leave (b : Bell) (t : TaskId) : Bell :=
  { b with waiting := b.waiting.erase t, woken := b.woken.erase t, roused := b.roused.erase t }

/-- Leaves for good; a single ring is passed on. -/
def desert (b : Bell) (t : TaskId) : Bell :=
  if b.woken.contains t then (b.leave t).ring .once else b.leave t

end Bell

end FaxClient.Pool
