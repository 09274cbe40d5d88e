import FaxClient.ExchangeError

/-!
# Expecting a reply

The server answers a command with a reply.  A caller names the codes, or the class of codes, that
it is prepared for; any other reply is turned into an error that keeps it.
-/

namespace FaxClient.Reply

def expect (r : Reply) (codes : List Nat) : Except ExchangeError Reply :=
  if r.code ∈ codes then .ok r else .error (.unexpected r)

def expectClass (r : Reply) (c : Class) : Except ExchangeError Reply :=
  if r.class? = some c then .ok r else .error (.unexpected r)

theorem expect_eq_ok_iff {r s : Reply} {codes : List Nat} :
    r.expect codes = .ok s ↔ r = s ∧ r.code ∈ codes := by
  unfold expect
  split <;> simp_all

theorem expectClass_eq_ok_iff {r s : Reply} {c : Class} :
    r.expectClass c = .ok s ↔ r = s ∧ r.class? = some c := by
  unfold expectClass
  split <;> simp_all

end FaxClient.Reply
