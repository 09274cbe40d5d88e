import FaxClient.Address
import FaxClient.ExchangeError

/-!
# Endpoints as six numbers

On the control connection an IPv4 endpoint is written as six decimal numbers with commas between
them: the four octets of the address and the two of the port.  In the text of a reply the first
such group counts, whatever stands around it.
-/

namespace FaxClient.HostPort

def encode (e : Endpoint) : String :=
  ",".intercalate ([e.ip.a.toNat, e.ip.b.toNat, e.ip.c.toNat, e.ip.d.toNat,
    e.port.toNat / 256, e.port.toNat % 256].map toString)

/-- The argument that announces an endpoint; IPv6 has no such form. -/
def encode? : Address → Except ExchangeError String
  | .v4 e => .ok (encode e)
  | a@(.v6 ..) => .error (.malformed ("PORT cannot describe IPv6 endpoint " ++ a.text))

def isDigit (c : Char) : Bool := '0' ≤ c && c ≤ '9'

def inGroup (c : Char) : Bool := isDigit c || c == ','

def value (digits : List Char) : Nat :=
  digits.foldl (fun n c => n * 10 + (c.toNat - '0'.toNat)) 0

/-- An octet in decimal, with any number of leading zeros. -/
def octet? (field : List Char) : Option UInt8 :=
  if field ≠ [] ∧ field.all isDigit ∧ value field < 256 then some (value field).toUInt8 else none

def fields : List Char → List (List Char)
  | [] => [[]]
  | c :: rest =>
    if c = ',' then [] :: fields rest
    else
      match fields rest with
      | [] => [[c]]
      | field :: more => (c :: field) :: more

/-- The endpoint that a group writes, if it is six octets. -/
def group? (chars : List Char) : Option Endpoint :=
  match (fields chars).mapM octet? with
  | some [a, b, c, d, p, q] => some ⟨⟨a, b, c, d⟩, p.toUInt16 * 256 + q.toUInt16⟩
  | _ => none

/-- The first run of digits and commas, from a digit on, that is a group. -/
def find? : List Char → Option Endpoint
  | [] => none
  | c :: rest =>
    if isDigit c then
      match group? (c :: rest.takeWhile inGroup) with
      | some e => some e
      | none => find? (rest.dropWhile inGroup)
    else find? rest
termination_by chars => chars.length
decreasing_by
  · exact Nat.lt_succ_of_le (List.dropWhile_sublist _).length_le
  · simp

def parse (text : String) : Except ExchangeError Endpoint :=
  match find? text.toList with
  | some e => .ok e
  | none => .error (.malformed ("no host-port group in \"" ++ text ++ "\""))

theorem parse_eq_error_iff {text : String} {e : ExchangeError} :
    parse text = .error e ↔ find? text.toList = none ∧
      e = .malformed ("no host-port group in \"" ++ text ++ "\"") := by
  unfold parse
  cases hfind : find? text.toList with
  | none => simp [eq_comm]
  | some endpoint => simp

end FaxClient.HostPort
