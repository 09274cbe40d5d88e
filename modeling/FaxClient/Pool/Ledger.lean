import FaxClient.Pool.Settings

/-!
# The ledger of a pool

Everything that a pool knows about its sessions stands in one ledger under one lock.  A session of
a pool is called a member.  Each function here is one stretch of work under the lock, from taking
it to giving it back; between two of them anything else may happen.

A member is idle in the queue, or working in a caller's hands.  A creation that is under way holds
a place of its own.  A member that is working when the pool is restarted is flagged, and is closed
when it comes back.
-/

namespace FaxClient.Pool

structure MemberId where
  number : Nat
  deriving DecidableEq

/-- The number of a control connection, in the order in which they were asked for. -/
structure Line where
  number : Nat
  deriving DecidableEq

structure Member where
  id : MemberId
  line : Line
  /-- Whether it is in a caller's hands. -/
  working : Bool
  /-- Whether nobody has found it unusable. -/
  valid : Bool
  deriving DecidableEq

structure Ledger where
  /-- The idle members, the one that is handed out next first. -/
  idle : List Member
  known : List MemberId
  working : List MemberId
  /-- The members that are closed when they come back. -/
  flagged : List MemberId
  creating : Nat
  stopped : Bool
  /-- The number of creations whose duration is remembered. -/
  measured : Nat
  /-- Members that may not be used any more, whoever holds them. -/
  revoked : List MemberId
  next : MemberId

namespace Ledger

def empty : Ledger := ⟨[], [], [], [], 0, false, 0, [], ⟨1⟩⟩

def occupied (l : Ledger) : Nat := l.known.length + l.creating

/-- The places that will still be taken once the flagged members have come back. -/
def live (l : Ledger) : Nat := l.occupied - l.flagged.length

def missing (l : Ledger) (s : Settings) : Nat := s.minSize - l.live

def atCapacity (l : Ledger) (s : Settings) : Bool :=
  s.pooling && s.maxSize != 0 && s.maxSize ≤ l.occupied

def forget (l : Ledger) (id : MemberId) : Ledger :=
  { l with
    known := l.known.erase id
    working := l.working.erase id
    flagged := l.flagged.erase id }

def revoke (l : Ledger) (id : MemberId) : Ledger := { l with revoked := l.revoked.insert id }

def usable (l : Ledger) (isOpen : Line → Bool) (m : Member) : Bool :=
  m.valid && isOpen m.line && !l.revoked.contains m.id

/-- Takes a place for a creation, and an id, unless the pool is full. -/
def reserve (l : Ledger) (s : Settings) : Option (MemberId × Ledger) :=
  if l.atCapacity s then none
  else some (l.next, { l with creating := l.creating + 1, next := ⟨l.next.number + 1⟩ })

def settle (l : Ledger) : Ledger := { l with creating := l.creating - 1 }

def measureLimit : Nat := 32

/-- Puts a new member in the place that its creation held; there is none in a stopped pool. -/
def publish (l : Ledger) (m : Member) : Option Ledger :=
  if l.stopped then none
  else some { l with
    known := l.known.insert m.id
    idle := l.idle ++ [m]
    measured := min (l.measured + 1) measureLimit }

inductive Found where
  | stopped
  | ready (m : Member)
  /-- The next member cannot be used, and is struck out. -/
  | stale (m : Member)
  | nothing

def take (l : Ledger) (isOpen : Line → Bool) : Found × Ledger :=
  if l.stopped then (.stopped, l)
  else
    match l.idle with
    | [] => (.nothing, l)
    | m :: rest =>
      let l := { l with idle := rest }
      if l.usable isOpen m then
        (.ready { m with working := true }, { l with working := l.working.insert m.id })
      else (.stale m, l.forget m.id)

inductive Returned where
  | kept
  /-- It is closed, and perhaps another takes its place. -/
  | doomed (m : Member) (replace : Bool)

/-- Takes a member back: it is idle again if it can be used, is not flagged, and still belongs to
the pool.  One that could not be used is replaced, and a flagged one if too few are left. -/
def giveBack (l : Ledger) (s : Settings) (isOpen : Line → Bool) (m : Member) : Returned × Ledger :=
  let m := { m with working := false }
  let flagged := l.flagged.contains m.id
  let known := l.known.contains m.id
  let usable := l.usable isOpen m
  let l := { l with working := l.working.erase m.id, flagged := l.flagged.erase m.id }
  if known && s.pooling && !flagged && usable then (.kept, { l with idle := l.idle ++ [m] })
  else
    let l := { l with known := l.known.erase m.id }
    (.doomed m (known && s.pooling && !l.stopped && (!usable || l.live < s.minSize)), l)

def reopen (l : Ledger) (s : Settings) : Nat × Ledger :=
  let l := { l with stopped := false }
  (l.missing s, l)

/-- Stops the pool: working members are revoked, and idle ones are taken out to be closed.  Also
answers with the number of members revoked. -/
def stop (l : Ledger) : List Member × Nat × Ledger :=
  let cut := l.working.filter l.known.contains
  (l.idle, cut.length, { l with
    idle := []
    known := []
    working := []
    flagged := []
    stopped := true
    revoked := cut.foldl (fun ids id => ids.insert id) l.revoked })

/-- Begins a restart: working members are flagged, and idle ones are taken out to be closed. -/
def flush (l : Ledger) : List Member × Ledger :=
  let opened := { l with
    stopped := false
    flagged := l.working.foldl (fun ids id => ids.insert id) l.flagged
    idle := [] }
  (l.idle, l.idle.foldl (fun l m => l.forget m.id) opened)

/-- Strikes out a member that its holder let go of without giving it back. -/
def abandon (l : Ledger) (id : MemberId) : Ledger := (l.forget id).revoke id

def total (l : Ledger) : Nat := l.known.length

end Ledger

end FaxClient.Pool
