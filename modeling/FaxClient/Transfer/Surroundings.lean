import FaxClient.Network
import FaxClient.Transfer.Run

/-!
# Where transfers run

What the host and its network make of the two ways to a data connection.
-/

namespace FaxClient.Transfer

/-- Opens a listener on an address of this host, on a port of the host's choice; the host has no
IPv6 addresses. -/
def listen (ip : Ip) (port : UInt16) : Except Fault Address :=
  match ip with
  | .v4 ip => if ip.isLocal then .ok (.v4 ⟨ip, port⟩) else .error .unavailable
  | .v6 _ => .error .unavailable

/-- How the wait for the other side turns out: it connects to a listener, or is connected to. -/
def Opening.to (network : Network) (side : Side) (peer : Peer) (address : Address) : Opening :=
  match side, network.dial peer with
  | _, .connected => .turn (.now address)
  | .passive, .failed fault => .turn (.completes (.error fault) false)
  | .active, .failed _ | _, .pending => .timesOut

end FaxClient.Transfer
