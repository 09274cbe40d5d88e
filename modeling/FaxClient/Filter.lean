import FaxClient.Fault
import FaxClient.Octets

/-!
# Filters

A filter takes octets in chunks and gives octets back; what a chunk cannot decide yet is kept in
its state until the next chunk or the end.  Filters compose: what one gives back is pushed into
the next, and at the end each is finished in turn.
-/

namespace FaxClient

structure Filter where
  State : Type
  start : State
  push : State → Octets → Except Fault (Octets × State)
  finish : State → Except Fault (Octets × State)

namespace Filter

def identity : Filter where
  State := Unit
  start := ()
  push := fun s chunk => .ok (chunk, s)
  finish := fun s => .ok ([], s)

def andThen (f g : Filter) : Filter where
  State := f.State × g.State
  start := (f.start, g.start)
  push := fun s chunk => do
    let (mid, s₁) ← f.push s.1 chunk
    let (out, s₂) ← g.push s.2 mid
    return (out, (s₁, s₂))
  finish := fun s => do
    let (mid, s₁) ← f.finish s.1
    let (out, s₂) ← g.push s.2 mid
    let (last, s₃) ← g.finish s₂
    return (out ++ last, (s₁, s₃))

def pushAll (f : Filter) : f.State → List Octets → Except Fault (List Octets × f.State)
  | s, [] => .ok ([], s)
  | s, chunk :: chunks => do
    let (out, s) ← f.push s chunk
    let (outs, s) ← f.pushAll s chunks
    return (out :: outs, s)

def outputs (f : Filter) (chunks : List Octets) : Except Fault (List Octets) := do
  let (outs, s) ← f.pushAll f.start chunks
  let (last, _) ← f.finish s
  return outs ++ [last]

def run (f : Filter) (chunks : List Octets) : Except Fault Octets :=
  (f.outputs chunks).map List.flatten

/-- Whether all that comes out depends on the octets alone, and not on the chunks they come in. -/
def ChunkInvariant (f : Filter) : Prop :=
  ∀ chunks, f.run chunks = f.run [chunks.flatten]

end Filter

structure Codec where
  compressor : Filter
  decompressor : Filter

end FaxClient
