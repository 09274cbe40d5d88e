import FaxClient.Event.Listeners

/-!
# Listeners that act

A listener may itself subscribe, unsubscribe and emit while an event is delivered to it.  A script
says what it does: on each delivery it takes the next list of steps from its plan.

An emission goes, one after the other, to the listeners that were registered when it began.  A
delivery is over when the steps it set off are, and with them every emission among them.
-/

namespace FaxClient.Event.Script

inductive Step where
  | subscribe (name : String) (registry : Registry) (plan : List (List Step))
  | unsubscribe (name : String)
  | emit (event : Event)
  | count
  deriving Inhabited

inductive Result where
  | subscribed (s : Subscription)
  | removed (found : Bool)
  | unknown
  | emitted
  | counted (n : Nat)

inductive Entry where
  | delivered (name : String) (event : Event)
  /-- During a delivery the listener did a step. -/
  | did (name : String) (step : Step) (result : Result)

structure Listener where
  name : String
  plan : List (List Step)

structure State where
  listeners : Listeners
  known : List (Subscription × Listener)
  names : List (String × Subscription)
  /-- What has happened, the latest first. -/
  log : List Entry

def State.empty : State := ⟨.empty, [], [], []⟩

def State.listener (s : State) (h : Subscription) : Listener :=
  (s.known.lookup h).getD ⟨"", []⟩

def State.deliver (s : State) (h : Subscription) (e : Event) : String × List Step × State :=
  let l := s.listener h
  let rest := (h, { l with plan := l.plan.tail }) :: s.known.filter (·.1 != h)
  (l.name, l.plan.headD [], { s with known := rest, log := .delivered l.name e :: s.log })

def State.subscribe (s : State) (name : String) (r : Registry) (plan : List (List Step)) :
    Subscription × State :=
  let (h, listeners) := s.listeners.subscribe r
  (h, { s with
    listeners := listeners
    known := (h, ⟨name, plan⟩) :: s.known
    names := (name, h) :: s.names })

def State.unsubscribe (s : State) (name : String) : Result × State :=
  match s.names.lookup name with
  | none => (.unknown, s)
  | some h =>
    let (found, listeners) := s.listeners.unsubscribe h
    (.removed found, { s with listeners := listeners })

/-- One step, where `deliver` says what the delivery of an event to one listener does. -/
def Step.run (deliver : Event → State → Subscription → State) (s : State) : Step → Result × State
  | .subscribe name r plan =>
    let (h, s) := s.subscribe name r plan
    (.subscribed h, s)
  | .unsubscribe name => s.unsubscribe name
  | .emit e => (.emitted, (s.listeners.recipients e).foldl (deliver e) s)
  | .count => (.counted s.listeners.count, s)

/-- The delivery of an event to one listener, with every step that it sets off, where deliveries
are nested at most `depth` deep. -/
def deliver : Nat → Event → State → Subscription → State
  | 0, e, s, h => (s.deliver h e).2.2
  | depth + 1, e, s, h =>
    let (name, steps, s) := s.deliver h e
    steps.foldl (fun s step =>
      let (result, s) := step.run (deliver depth) s
      { s with log := .did name step result :: s.log }) s

def Step.lists : Step → Nat
  | .subscribe _ _ plan =>
    plan.foldl (fun sum steps => steps.foldl (fun sum step => sum + step.lists) (sum + 1)) 0
  | .unsubscribe _ | .emit _ | .count => 0
decreasing_by
  have h := List.sizeOf_lt_of_mem ‹_ ∈ plan›
  have h' := List.sizeOf_lt_of_mem ‹_ ∈ steps›
  simp only [subscribe.sizeOf_spec]
  omega

structure Report where
  result : Result
  log : List Entry
  count : Nat

/-- The steps of a script in turn.  Each list of steps is set off at most once, so deliveries
are nested no deeper than there are lists. -/
def run (script : List Step) : List Report :=
  let depth := script.foldl (fun sum step => sum + step.lists) 0
  let (reports, _) := script.foldl (fun (acc : List Report × State) step =>
    let (result, s) := step.run (deliver depth) { acc.2 with log := [] }
    (⟨result, s.log.reverse, s.listeners.count⟩ :: acc.1, s)) ([], .empty)
  reports.reverse

end FaxClient.Event.Script
