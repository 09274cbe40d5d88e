import FaxClient.Control

/-!
# Calls

Everything a user of a control connection can ask of it, as a value: a raw request, a read, one of
the typed verbs, or to close.
-/

namespace FaxClient.Control

inductive Call where
  | request (command : Command)
  | read
  | user (name : String)
  | pass (password : String)
  | admin (password : String)
  | tzone (zone : String)
  | idle (seconds : Nat)
  | noop
  | quit
  | setRepresentation (r : Representation)
  | setMode (m : Mode)
  | port (address : Address)
  | pasv
  | close

inductive Answer where
  | done
  | passwordWanted (wanted : Bool)
  | endpoint (e : Endpoint)
  | reply (r : Reply)

variable {σ : Type} [Control σ]

def done (x : Exchange σ Unit) : Exchange σ Answer := do
  x
  return .done

def Call.run : Call → Exchange σ Answer
  | .request command => do return .reply (← Control.request command)
  | .read => do return .reply (← Control.read)
  | .user name => do return .passwordWanted (← Control.user name)
  | .pass password => done (Control.pass password)
  | .admin password => done (Control.admin password)
  | .tzone zone => done (Control.tzone zone)
  | .idle seconds => done (Control.idle seconds)
  | .noop => done Control.noop
  | .quit => done Control.quit
  | .setRepresentation r => done (Control.setRepresentation r)
  | .setMode m => done (Control.setMode m)
  | .port address => done (Control.port address)
  | .pasv => do return .endpoint (← Control.pasv)
  | .close => done Control.close

end FaxClient.Control
