import FaxClient.Duration
import FaxClient.ExchangeError

/-!
# Errors of a pool
-/

namespace FaxClient.Pool

inductive Error where
  | exhausted (limit : Duration)
  | creation (error : ExchangeError)
  | stopped
  deriving DecidableEq

namespace Error

def message : Error → String
  | .exhausted limit =>
    "could not obtain a client within the blocking timeout (" ++ limit.text ++ ")"
  | .creation error => "could not create client: " ++ error.message
  | .stopped => "client pool is stopped"

def cause? : Error → Option String
  | .creation error => some error.message
  | .exhausted _ | .stopped => none

end Error

end FaxClient.Pool
