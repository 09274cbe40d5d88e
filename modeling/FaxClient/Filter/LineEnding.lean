import FaxClient.Filter

/-!
# Line endings

On the connection lines end with CR LF, at the caller's with LF.  Outbound, a CR is put before
each LF that has none; inbound, the CR of each CR LF is dropped, so that a CR at the end of a
chunk waits for the next octet.

`expand` and `contract` say the same of octets as a whole.
-/

namespace FaxClient.LineEnding

open Octets

/-- What an outbound octet brings, given whether the one before it was a CR. -/
def expandStep (afterCr : Bool) (b : UInt8) : Octets :=
  if b = lf ∧ afterCr = false then [cr, lf] else [b]

/-- What an inbound octet brings, given whether a CR is waiting. -/
def contractStep (waiting : Bool) (b : UInt8) : Octets :=
  let before := if waiting ∧ b ≠ lf then [cr] else []
  if b = cr then before else before ++ [b]

def emit (out : Array UInt8) : Octets → Array UInt8
  | [] => out
  | b :: rest => emit (out.push b) rest

/-- What comes out of a step for each octet, where the step is told whether the octet before was a
CR; and whether the last one was. -/
def pass (step : Bool → UInt8 → Octets) (afterCr : Bool) (chunk : Octets) : Octets × Bool :=
  let (out, last) := chunk.foldl
    (fun (acc : Array UInt8 × Bool) b => (emit acc.1 (step acc.2 b), b == cr)) (#[], afterCr)
  (out.toList, last)

def encoder : Filter where
  State := Bool
  start := false
  push := fun s chunk => .ok (pass expandStep s chunk)
  finish := fun s => .ok ([], s)

def decoder : Filter where
  State := Bool
  start := false
  push := fun s chunk => .ok (pass contractStep s chunk)
  finish := fun s => .ok (if s then [cr] else [], false)

/-- Octets after the octet `previous`, with a CR before every LF that does not follow a CR. -/
def expandAfter (previous : Option UInt8) : Octets → Octets
  | [] => []
  | b :: rest =>
    if b = lf ∧ previous ≠ some cr then cr :: lf :: expandAfter (some lf) rest
    else b :: expandAfter (some b) rest

/-- Octets with a CR before every LF that does not follow a CR. -/
def expand (octets : Octets) : Octets := expandAfter none octets

/-- Octets without the CR of each CR LF. -/
def contract : Octets → Octets
  | [] => []
  | b :: rest =>
    if b = cr ∧ rest.head? = some lf then contract rest else b :: contract rest

theorem toList_emit (out : Array UInt8) (octets : Octets) :
    (emit out octets).toList = out.toList ++ octets := by
  induction octets generalizing out with
  | nil => simp [emit]
  | cons b rest ih => simp [emit, ih]

end FaxClient.LineEnding
