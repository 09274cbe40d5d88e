import FaxClient.Duration
import FaxClient.Json.Scanner
import FaxClient.Text.Quoted

/-!
# Settings of a pool

Where the server is, how a session logs in, how many sessions there may be, and how long a caller
waits for one.  Settings are read from JSON, where every member may be missing, and are shown with
their secrets hidden.
-/

namespace FaxClient.Pool

structure Settings where
  host : String
  port : Nat
  username : Option String
  password : Option String
  adminPassword : Option String
  timezone : Option String
  minSize : Nat
  /-- 0 stands for no limit. -/
  maxSize : Nat
  blockingTimeout : Nat
  retryInterval : Nat
  /-- Whether sessions are kept when they come back. -/
  pooling : Bool
  passive : Bool
  deriving DecidableEq

namespace Settings

def default : Settings where
  host := "localhost"
  port := 4559
  username := none
  password := none
  adminPassword := none
  timezone := none
  minSize := 1
  maxSize := 5
  blockingTimeout := 30000
  retryInterval := 1000
  pooling := true
  passive := true

def blockingDuration (s : Settings) : Duration := .ofMilliseconds s.blockingTimeout

def retryDuration (s : Settings) : Duration := .ofMilliseconds s.retryInterval

/-! ## Reading -/

def member {β : Type} (name : String) (read : Octets → Except Json.Problem (β × Octets))
    (set : β → Settings → Settings) : Json.Member Settings :=
  ⟨name, fun input => (read input).map fun (b, rest) => (set b, rest)⟩

def members : List (Json.Member Settings) :=
  [member "host" Json.text fun v s => { s with host := v },
    member "port" (Json.natural 65535) fun v s => { s with port := v },
    member "username" Json.text? fun v s => { s with username := v },
    member "password" Json.text? fun v s => { s with password := v },
    member "admin_password" Json.text? fun v s => { s with adminPassword := v },
    member "timezone" Json.text? fun v s => { s with timezone := v },
    member "min_pool_size" (Json.natural Json.wordLimit) fun v s => { s with minSize := v },
    member "max_pool_size" (Json.natural Json.wordLimit) fun v s => { s with maxSize := v },
    member "blocking_timeout_ms" (Json.natural Json.wordLimit)
      fun v s => { s with blockingTimeout := v },
    member "retry_interval_ms" (Json.natural Json.wordLimit)
      fun v s => { s with retryInterval := v },
    member "pooling" Json.flag fun v s => { s with pooling := v },
    member "passive" Json.flag fun v s => { s with passive := v }]

/-- The settings that a JSON text gives; what it leaves out is as in `default`. -/
def ofJson (text : String) : Except Json.Problem Settings :=
  Json.record members default (Octets.ofText text)

/-! ## Showing -/

def showText? : Option String → String
  | none => "None"
  | some s => "Some(" ++ Text.quote s ++ ")"

def showFlag (b : Bool) : String := if b then "true" else "false"

def mask : String := "****"

def display (s : Settings) : String :=
  let fields := [("host", Text.quote s.host), ("port", toString s.port),
    ("username", showText? s.username),
    ("password", showText? (s.password.map fun _ => mask)),
    ("admin_password", showText? (s.adminPassword.map fun _ => mask)),
    ("timezone", showText? s.timezone),
    ("min_pool_size", toString s.minSize), ("max_pool_size", toString s.maxSize),
    ("blocking_timeout_ms", toString s.blockingTimeout),
    ("retry_interval_ms", toString s.retryInterval),
    ("pooling", showFlag s.pooling), ("passive", showFlag s.passive)]
  "PoolConfig \x7b " ++ ", ".intercalate (fields.map fun (k, v) => k ++ ": " ++ v) ++ " \x7d"

end Settings

end FaxClient.Pool
