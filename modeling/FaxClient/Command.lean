import FaxClient.ExchangeError
import FaxClient.Octets
import FaxClient.Text.Blank

/-!
# Commands

A command is a verb with or without arguments, sent as one line.  A verb is a single word and
arguments hold no line end, so that nothing that is sent can be taken for a second command; a
command that is not so is refused and nothing of it is sent.
-/

namespace FaxClient

structure Command where
  verb : String
  args : Option String
  deriving DecidableEq

namespace Command

def isSecret (c : Command) : Bool := c.verb == "PASS" || c.verb == "ADMIN"

def display (c : Command) : String :=
  match c.args with
  | none => c.verb
  | some args => c.verb ++ " " ++ if c.isSecret then "****" else args

def isLineEnd (c : Char) : Bool := c == '\r' || c == '\n'

def isSendable (c : Command) : Bool :=
  !c.verb.toList.isEmpty && !c.verb.toList.any Text.isBlank &&
    !(c.args.getD "").toList.any isLineEnd

def line (c : Command) : Octets :=
  let rest := match c.args with
    | none => []
    | some args => 32 :: Octets.ofText args
  Octets.ofText c.verb ++ rest ++ [Octets.cr, Octets.lf]

def encode (c : Command) : Except ExchangeError Octets :=
  if c.isSendable then .ok c.line
  else .error (.malformed ("refusing to send invalid command \"" ++ c.verb ++ "\""))

/-- What is sent for one command after another: each accepted line follows those before it, and a
refused command leaves them as they are. -/
def send (sent : Octets) (c : Command) : Octets × Option ExchangeError :=
  match c.encode with
  | .ok line => (sent ++ line, none)
  | .error e => (sent, some e)

theorem encode_eq_ok_iff {c : Command} {o : Octets} :
    c.encode = .ok o ↔ c.isSendable = true ∧ o = c.line := by
  unfold encode
  split
  · next h => simp [h, eq_comm]
  · next h => simp [h]

end Command

end FaxClient
