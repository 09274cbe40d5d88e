import FaxClient.Address

/-!
# Events

A transfer announces what becomes of its data connection and of its octets.  The two kinds of
events go to two registries of listeners.
-/

namespace FaxClient

inductive ConnectionEvent where
  | opened (peer : Address)
  | closed (peer : Address)
  /-- It could not be made, or was given up before anybody connected. -/
  | failed (reason : String)
  deriving DecidableEq

inductive TransferEvent.Kind where
  | started
  | progress
  | completed
  /-- No octet was ever moved. -/
  | aborted
  deriving DecidableEq

/-- What becomes of the octets; `bytes` is the payload moved so far. -/
structure TransferEvent where
  kind : TransferEvent.Kind
  bytes : Nat
  deriving DecidableEq

inductive Registry where
  | connection
  | transfer
  deriving DecidableEq

inductive Event where
  | connection (event : ConnectionEvent)
  | transfer (event : TransferEvent)
  deriving DecidableEq

def Event.registry : Event → Registry
  | .connection _ => .connection
  | .transfer _ => .transfer

end FaxClient
