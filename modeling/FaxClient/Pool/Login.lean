import FaxClient.Control
import FaxClient.Pool.Settings

/-!
# Logging in

A new session names the user if there is one, gives the password if the server wants it, and then
claims administration and sets the timezone if the settings say so.  The first refusal ends it,
and so does a password that is wanted but not there.
-/

namespace FaxClient.Pool

inductive Login where
  | user (name : String)
  | pass (password : String)
  | admin (password : String)
  | tzone (zone : String)
  deriving DecidableEq

namespace Login

def command : Login → Command
  | .user name => ⟨"USER", some name⟩
  | .pass password => ⟨"PASS", some password⟩
  | .admin password => ⟨"ADMIN", some password⟩
  | .tzone zone => ⟨"TZONE", some zone⟩

def accepted : Login → List Nat
  | .user _ => [230, Control.passwordWanted]
  | .pass _ => [202, 230]
  | .admin _ => [230]
  | .tzone _ => [200]

/-- The requests that the settings ask for, if no password is wanted. -/
def requests (s : Settings) : List Login :=
  (s.username.map user).toList ++ (s.adminPassword.map admin).toList ++
    (s.timezone.map tzone).toList

def passwordMissing : ExchangeError :=
  .unexpected ⟨Control.passwordWanted, "password required but not configured"⟩

/-- The requests still to make once one of them is answered. -/
def next (s : Settings) (request : Login) (rest : List Login) (reply : Reply) :
    Except ExchangeError (List Login) := do
  let reply ← reply.expect request.accepted
  match request with
  | .user _ =>
    if reply.code = Control.passwordWanted then
      match s.password with
      | some password => return pass password :: rest
      | none => .error passwordMissing
    else return rest
  | _ => return rest

end Login

end FaxClient.Pool
