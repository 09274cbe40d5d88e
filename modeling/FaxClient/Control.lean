import FaxClient.Command
import FaxClient.Exchange
import FaxClient.HostPort
import FaxClient.Reply
import FaxClient.Representation

/-!
# The control connection

Commands go out and replies come in over the control connection.  Whatever can send a command and
read a reply is one; each verb of the protocol is an exchange over it that accepts the replies the
verb allows.
-/

namespace FaxClient

class Control (σ : Type) where
  /-- Sends a command and answers with the first reply to it. -/
  request : Command → Exchange σ Reply
  /-- Answers with the next reply without sending anything. -/
  read : Exchange σ Reply
  close : Exchange σ Unit
  isOpen : σ → Bool
  localAddress? : σ → Option Address

namespace Control

variable {σ : Type} [Control σ]

def ask (verb : String) (args : Option String) (codes : List Nat) : Exchange σ Reply := do
  let reply ← request ⟨verb, args⟩
  Exchange.ofExcept (reply.expect codes)

def tell (verb : String) (args : Option String) (codes : List Nat) : Exchange σ Unit := do
  let _ ← ask verb args codes
  return ()

def passwordWanted : Nat := 331

/-- Names the user; answers whether a password is wanted. -/
def user (name : String) : Exchange σ Bool := do
  let reply ← ask "USER" (some name) [230, passwordWanted]
  return reply.code == passwordWanted

def pass (password : String) : Exchange σ Unit := tell "PASS" (some password) [202, 230]

def admin (password : String) : Exchange σ Unit := tell "ADMIN" (some password) [230]

def tzone (zone : String) : Exchange σ Unit := tell "TZONE" (some zone) [200]

def idle (seconds : Nat) : Exchange σ Unit := tell "IDLE" (some (toString seconds)) [200]

def noop : Exchange σ Unit := tell "NOOP" none [200]

def quit : Exchange σ Unit := tell "QUIT" none [221]

def setRepresentation (r : Representation) : Exchange σ Unit := tell "TYPE" (some r.code) [200]

def setMode (m : Mode) : Exchange σ Unit := tell "MODE" (some m.code) [200]

/-- Announces the endpoint at which the server shall connect. -/
def port (a : Address) : Exchange σ Unit := do
  let arg ← Exchange.ofExcept (HostPort.encode? a)
  tell "PORT" (some arg) [200]

def pasv : Exchange σ Endpoint := do
  let reply ← ask "PASV" none [227]
  Exchange.ofExcept (HostPort.parse reply.text)

end Control

end FaxClient
