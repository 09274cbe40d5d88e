import FaxClient.Address
import FaxClient.Fault

/-!
# Reaching others

What becomes of an attempt to connect depends on the network of this host and on what is at the
other end; where a listener can be opened depends on the addresses of this host.
-/

namespace FaxClient

inductive Network where
  | attached
  /-- No address can be reached, not even one of this host. -/
  | detached
  deriving DecidableEq

inductive Peer where
  | listening
  | refusing
  | silent
  deriving DecidableEq

inductive Dial where
  | connected
  | failed (fault : Fault)
  | pending
  deriving DecidableEq

def Network.dial : Network → Peer → Dial
  | .detached, _ => .failed .unreachable
  | .attached, .listening => .connected
  | .attached, .refusing => .failed .refused
  | .attached, .silent => .pending

/-- Whether an address is one of this host: it loops back, or stands for all of them. -/
def Ipv4.isLocal (ip : Ipv4) : Bool := ip.a == 127 || ip == .unspecified

end FaxClient
