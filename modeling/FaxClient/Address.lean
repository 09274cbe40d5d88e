/-!
# Addresses of endpoints

IPv4 and IPv6 addresses with a port, and their texts.  An IPv6 address is written with the
longest run of at least two zero groups, the first of equal ones, shortened to `::`; an address
that stands for an IPv4 address is written `::ffff:` and that address.
-/

namespace FaxClient

structure Ipv4 where
  a : UInt8
  b : UInt8
  c : UInt8
  d : UInt8
  deriving DecidableEq

namespace Ipv4

def loopback : Ipv4 := ⟨127, 0, 0, 1⟩

def unspecified : Ipv4 := ⟨0, 0, 0, 0⟩

def text (ip : Ipv4) : String :=
  toString ip.a.toNat ++ "." ++ toString ip.b.toNat ++ "." ++ toString ip.c.toNat ++ "." ++
    toString ip.d.toNat

end Ipv4

abbrev Ipv6 := Vector UInt16 8

namespace Ipv6

/-- The longest run of zeros in a list of groups, as its start and its length: the first of
equally long ones.  `start` and `length` are those of the run that ends where the list begins,
`best` is the longest so far. -/
def longestZeros (best : Nat × Nat) (start length : Nat) : List UInt16 → Nat × Nat
  | [] => best
  | g :: rest =>
    if g = 0 then
      let run := (start, length + 1)
      longestZeros (if best.2 < run.2 then run else best) start (length + 1) rest
    else longestZeros best (start + length + 1) 0 rest

/-- A group in lower-case hexadecimal digits without leading zeros. -/
def groupText (g : UInt16) : String := String.ofList (Nat.toDigits 16 g.toNat)

def groupsText (gs : List UInt16) : String := ":".intercalate (gs.map groupText)

def mapped? (ip : Ipv6) : Option Ipv4 :=
  if ip.toList.take 6 = [0, 0, 0, 0, 0, 0xffff] then
    some ⟨(ip[6] >>> 8).toUInt8, ip[6].toUInt8, (ip[7] >>> 8).toUInt8, ip[7].toUInt8⟩
  else none

def text (ip : Ipv6) : String :=
  match mapped? ip with
  | some v4 => "::ffff:" ++ v4.text
  | none =>
    let gs := ip.toList
    let (start, length) := longestZeros (0, 0) 0 0 gs
    if 1 < length then groupsText (gs.take start) ++ "::" ++ groupsText (gs.drop (start + length))
    else groupsText gs

end Ipv6

inductive Ip where
  | v4 (ip : Ipv4)
  | v6 (ip : Ipv6)
  deriving DecidableEq

structure Endpoint where
  ip : Ipv4
  port : UInt16
  deriving DecidableEq

def Endpoint.text (e : Endpoint) : String := e.ip.text ++ ":" ++ toString e.port.toNat

/-- An address and a port of either family; the scope of an IPv6 address is 0 when it has none. -/
inductive Address where
  | v4 (endpoint : Endpoint)
  | v6 (ip : Ipv6) (port : UInt16) (scope : UInt32)
  deriving DecidableEq

def Address.ip : Address → Ip
  | .v4 e => .v4 e.ip
  | .v6 ip _ _ => .v6 ip

def Address.text : Address → String
  | .v4 e => e.text
  | .v6 ip port scope =>
    let zone := if scope = 0 then "" else "%" ++ toString scope.toNat
    "[" ++ Ipv6.text ip ++ zone ++ "]:" ++ toString port.toNat

end FaxClient
