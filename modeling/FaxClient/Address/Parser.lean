import FaxClient.Address

/-!
# Reading addresses

The texts of endpoints: `1.2.3.4:5`, and for IPv6 `[1:2::3]:4` with an optional scope after a
percent sign.  A run of zero groups may be left out once, and the last two groups may be written
as an IPv4 address.
-/

namespace FaxClient.Address

/-- A decimal number of at least one digit, below a bound. -/
def decimal? (bound : Nat) (text : String) : Option Nat := do
  let cs := text.toList
  if cs.isEmpty || !cs.all Char.isDigit then none
  else
    let n := cs.foldl (fun n c => n * 10 + (c.toNat - '0'.toNat)) 0
    if n < bound then some n else none

def hexValue? (c : Char) : Option Nat :=
  if '0' ≤ c ∧ c ≤ '9' then some (c.toNat - '0'.toNat)
  else if 'a' ≤ c ∧ c ≤ 'f' then some (c.toNat - 'a'.toNat + 10)
  else if 'A' ≤ c ∧ c ≤ 'F' then some (c.toNat - 'A'.toNat + 10)
  else none

def group? (text : String) : Option UInt16 := do
  let cs := text.toList
  if cs.isEmpty || 4 < cs.length then none
  else
    let ds ← cs.mapM hexValue?
    return (ds.foldl (fun n d => n * 16 + d) 0).toUInt16

def ipv4? (text : String) : Option Ipv4 := do
  match ← (text.splitOn ".").mapM (decimal? 256) with
  | [a, b, c, d] => some ⟨a.toUInt8, b.toUInt8, c.toUInt8, d.toUInt8⟩
  | _ => none

/-- The groups between colons; the last may be an IPv4 address. -/
def groups? (text : String) : Option (List UInt16) :=
  if text.isEmpty then some []
  else
    let parts := text.splitOn ":"
    match ipv4? (parts.getLastD "") with
    | some ip => do
      let before ← parts.dropLast.mapM group?
      return before ++ [ip.a.toUInt16 * 256 + ip.b.toUInt16, ip.c.toUInt16 * 256 + ip.d.toUInt16]
    | none => parts.mapM group?

def ofGroups? (gs : List UInt16) : Option Ipv6 :=
  if h : gs.length = 8 then some ⟨gs.toArray, by simpa using h⟩ else none

def ipv6? (text : String) : Option Ipv6 := do
  match text.splitOn "::" with
  | [whole] => ofGroups? (← groups? whole)
  | [left, right] =>
    let l ← groups? left
    let r ← groups? right
    if l.length + r.length < 8 then
      ofGroups? (l ++ List.replicate (8 - (l.length + r.length)) 0 ++ r)
    else none
  | _ => none

def parse? (text : String) : Option Address := do
  match text.splitOn "]:" with
  | [inner, port] =>
    let p ← decimal? 65536 port
    match (String.ofList (inner.toList.drop 1)).splitOn "%" with
    | [ip] => return .v6 (← ipv6? ip) p.toUInt16 0
    | [ip, scope] => return .v6 (← ipv6? ip) p.toUInt16 (← decimal? 4294967296 scope).toUInt32
    | _ => none
  | _ =>
    match text.splitOn ":" with
    | [ip, port] => return .v4 ⟨← ipv4? ip, (← decimal? 65536 port).toUInt16⟩
    | _ => none

end FaxClient.Address
