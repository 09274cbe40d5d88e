import FaxClient.Fault
import FaxClient.Reply.Basic

/-!
# Errors of an exchange

What can come of an exchange with the server instead of an acceptable reply.
-/

namespace FaxClient

inductive ExchangeError where
  | io (fault : Fault)
  | closed
  /-- Something that is not well formed was received, or was to be sent. -/
  | malformed (what : String)
  | unexpected (reply : Reply)
  /-- The session was taken back by its pool. -/
  | revoked
  deriving DecidableEq

namespace ExchangeError

/-- Whether the session is of no further use. -/
def isFatal : ExchangeError → Bool
  | .unexpected r => r.code == Reply.closingCode
  | _ => true

def message : ExchangeError → String
  | .io fault => "command channel I/O error: " ++ fault.text
  | .closed => "command channel closed by server"
  | .malformed what => "malformed server reply: " ++ what
  | .unexpected r => "unexpected server reply " ++ toString r.code ++ ": " ++ r.text
  | .revoked => "client was revoked by its pool"

def cause? : ExchangeError → Option String
  | .io fault => some fault.text
  | .closed | .malformed _ | .unexpected _ | .revoked => none

end ExchangeError

end FaxClient
