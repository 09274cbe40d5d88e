/-!
# Faults of a stream

What the host reports when a connection, a source or a sink fails: a kind and a text.  The faults
that the library itself brings about are named here, each with its fixed text.
-/

namespace FaxClient

inductive Fault.Kind where
  | connectionRefused
  | connectionReset
  | networkUnreachable
  | addressUnavailable
  | brokenPipe
  | timedOut
  | unexpectedEnd
  | invalidData
  | invalidInput
  | notFound
  | writeZero
  | other
  deriving DecidableEq

structure Fault where
  kind : Fault.Kind
  text : String
  deriving DecidableEq

namespace Fault

def refused : Fault := ⟨.connectionRefused, "Connection refused (os error 111)"⟩

def reset : Fault := ⟨.connectionReset, "Connection reset by peer (os error 104)"⟩

def unreachable : Fault := ⟨.networkUnreachable, "Network is unreachable (os error 101)"⟩

def unavailable : Fault := ⟨.addressUnavailable, "Cannot assign requested address (os error 99)"⟩

/-- A sink took nothing of a write that was not empty. -/
def wroteNothing : Fault := ⟨.writeZero, "write zero"⟩

/-- A filter took only a beginning of what it was given. -/
def wrotePart : Fault := ⟨.writeZero, "failed to write whole buffer"⟩

def corrupt : Fault := ⟨.invalidInput, "corrupt deflate stream"⟩

/-- A connection ended within a reply. -/
def unfinished : Fault := ⟨.other, "bytes remaining on stream"⟩

end Fault

end FaxClient
