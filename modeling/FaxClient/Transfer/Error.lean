import FaxClient.Duration
import FaxClient.ExchangeError

/-!
# Errors of a transfer

What can come of a transfer instead of an outcome.
-/

namespace FaxClient.Transfer

inductive Error where
  | bind (fault : Fault)
  | connect (fault : Fault)
  | acceptTimeout (limit : Duration)
  | connectTimeout (limit : Duration)
  /-- Cancelled before the data connection was there. -/
  | cancelled
  /-- The transfer broke off after so many payload octets. -/
  | truncated (moved : Nat) (fault : Fault)
  | command (error : ExchangeError)
  /-- The task of the transfer broke down. -/
  | worker (what : String)
  deriving DecidableEq

namespace Error

def message : Error → String
  | .bind fault => "failed to open data listener: " ++ fault.text
  | .connect fault => "failed to connect data channel: " ++ fault.text
  | .acceptTimeout limit => "no data connection within " ++ limit.text
  | .connectTimeout limit => "data connection not established within " ++ limit.text
  | .cancelled => "transfer cancelled before the data connection opened"
  | .truncated moved fault => "transfer failed after " ++ toString moved ++ " bytes: " ++ fault.text
  | .command error => "transfer negotiation failed: " ++ error.message
  | .worker what => "transfer worker failed: " ++ what

def cause? : Error → Option String
  | .bind fault | .connect fault | .truncated _ fault => some fault.text
  | .command error => some error.message
  | .acceptTimeout _ | .connectTimeout _ | .cancelled | .worker _ => none

end Error

end FaxClient.Transfer
