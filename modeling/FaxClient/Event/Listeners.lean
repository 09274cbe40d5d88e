import FaxClient.Event

/-!
# Listeners

Two ordered registries of subscriptions with one supply of handles between them.  To subscribe is
to take a handle and to put it at the end of a registry; to unsubscribe is to look for it in one
registry and then in the other.  Each of these is a step of its own, between which others may come.
-/

namespace FaxClient

structure Subscription where
  number : Nat
  deriving DecidableEq

structure Listeners where
  next : Nat
  connection : List Subscription
  transfer : List Subscription
  deriving DecidableEq

namespace Listeners

def empty : Listeners := ⟨0, [], []⟩

/-- The subscriptions of a registry, the oldest first. -/
def of (l : Listeners) : Registry → List Subscription
  | .connection => l.connection
  | .transfer => l.transfer

def set (l : Listeners) (r : Registry) (subscriptions : List Subscription) : Listeners :=
  match r with
  | .connection => { l with connection := subscriptions }
  | .transfer => { l with transfer := subscriptions }

def allocate (l : Listeners) : Subscription × Listeners := (⟨l.next⟩, { l with next := l.next + 1 })

def register (l : Listeners) (r : Registry) (s : Subscription) : Listeners :=
  l.set r (l.of r ++ [s])

/-- Takes a handle out of a registry, and says whether it was there. -/
def remove (l : Listeners) (r : Registry) (s : Subscription) : Bool × Listeners :=
  if s ∈ l.of r then (true, l.set r ((l.of r).erase s)) else (false, l)

def subscribe (l : Listeners) (r : Registry) : Subscription × Listeners :=
  let (s, l) := l.allocate
  (s, l.register r s)

/-- Takes a handle out of the registry that holds it, and says whether one did. -/
def unsubscribe (l : Listeners) (s : Subscription) : Bool × Listeners :=
  match l.remove .connection s with
  | (true, l) => (true, l)
  | (false, l) => l.remove .transfer s

def count (l : Listeners) : Nat := l.connection.length + l.transfer.length

/-- To whom an event goes: those in its registry when it is emitted, in their order. -/
def recipients (l : Listeners) (e : Event) : List Subscription := l.of e.registry

@[simp] theorem of_set_same (l : Listeners) (r : Registry) (s : List Subscription) :
    (l.set r s).of r = s := by
  cases r <;> rfl

theorem of_set_ne (l : Listeners) {r q : Registry} (h : q ≠ r) (s : List Subscription) :
    (l.set r s).of q = l.of q := by
  cases r <;> cases q <;> simp_all [set, of]

end Listeners

end FaxClient
