import FaxClient.Control.Call
import FaxClient.Control.Connection
import Mathlib

/-!
# Errors that close the connection

A fatal error says that the session is of no further use, and a connection is open as long as its
session may be used.  Whatever goes wrong in an exchange with the server, the two agree: the
connection is closed exactly by the fatal errors, also when a verb does not accept the reply.

They part only where a call fails although the exchange does not: an IPv6 endpoint has no written
form that could be sent, and the reply that shall name an endpoint may name none.  Then the error is
fatal, and the connection stays open.
-/

namespace FaxClient.Control

/-- An exchange that fails closes an open connection exactly if the error is fatal. -/
def Heeds {α : Type} (x : Exchange Connection α) : Prop :=
  ∀ ⦃c e c'⦄, c.isOpen = true → x c = (.error e, c') → c'.isOpen = !e.isFatal

section

variable {α β : Type} {x : Exchange Connection α}

/-- What is made of the result does not matter if it cannot fail. -/
theorem Heeds.bind_pure (hx : Heeds x) (f : α → β) : Heeds (do return f (← x)) := by
  intro c e c' hopen h
  rcases Exchange.bind_eq_error h with hfailed | ⟨a, d, -, hpure⟩
  · exact hx hopen hfailed
  · simp at hpure

end

namespace Connection

theorem isOpen_note {c : Connection} (h : c.isOpen = true) (e : ExchangeError) :
    (c.note e).isOpen = !e.isFatal := by
  unfold note
  cases he : e.isFatal <;> simp [h]

theorem heeds_fail {α : Type} (e : ExchangeError) : Heeds (fail e : Exchange Connection α) := by
  intro c e' c' hopen h
  obtain ⟨rfl, rfl⟩ : e = e' ∧ c.note e = c' := by simpa [fail] using h
  exact isOpen_note hopen e

/-! ## Looking for a reply -/

def Look.connection : Look → Connection
  | .found _ c | .waiting c => c

theorem isOpen_look (c : Connection) : c.look.connection.isOpen = c.isOpen := by
  unfold look
  split
  · rfl
  · split
    · rfl
    · split
      · rfl
      · rfl
      · split
        · rfl
        · split <;> rfl

theorem isOpen_of_look {c d : Connection} {answer : Option (Except ExchangeError Reply)}
    (h : c.look = .found answer d) : d.isOpen = c.isOpen := by
  have hlook := c.isOpen_look
  rwa [h] at hlook

theorem isOpen_of_look_waiting {c d : Connection} (h : c.look = .waiting d) :
    d.isOpen = c.isOpen := by
  have hlook := c.isOpen_look
  rwa [h] at hlook

/-- Nothing that is received closes a connection before it is an answer. -/
theorem isOpen_nextFrom (incoming : List Octets) (c : Connection) :
    (nextFrom incoming c).2.isOpen = c.isOpen := by
  induction incoming generalizing c with
  | nil =>
    rw [nextFrom]
    cases hlook : c.look with
    | found answer d =>
      have hd := isOpen_of_look hlook
      exact hd
    | waiting d =>
      have hd := isOpen_of_look_waiting hlook
      cases hended : d.ended with
      | true => simpa [hended] using hd
      | false =>
        -- The end of the stream is looked at once more.
        have hlast := isOpen_look { d with fresh := true, ended := true }
        simp only [hended, Bool.false_eq_true, if_false]
        split
        · next answer d' hfound =>
          rw [hfound] at hlast
          exact hlast.trans hd
        · next d' hwaiting =>
          rw [hwaiting] at hlast
          exact hlast.trans hd
  | cons chunk rest ih =>
    rw [nextFrom]
    cases hlook : c.look with
    | found answer d =>
      have hd := isOpen_of_look hlook
      exact hd
    | waiting d =>
      have hd := isOpen_of_look_waiting hlook
      exact (ih _).trans hd

theorem isOpen_next (c : Connection) : c.next.2.isOpen = c.isOpen := isOpen_nextFrom _ c

/-! ## Raw exchanges -/

theorem heeds_read : Heeds read := by
  intro c e c' hopen h
  have hnext := c.isOpen_next
  unfold read at h
  split at h
  · simp at h
  · next e₀ d heq =>
    rw [heq] at hnext
    exact heeds_fail e₀ (hnext.trans hopen) h
  · next d heq =>
    rw [heq] at hnext
    exact heeds_fail .closed (hnext.trans hopen) h

/-- A reply closes the connection exactly if it says that the session ends. -/
theorem isOpen_of_read {c c' : Connection} {r : Reply} (hopen : c.isOpen = true)
    (h : read c = (.ok r, c')) : c'.isOpen = !(r.code == Reply.closingCode) := by
  have hnext := c.isOpen_next
  unfold read at h
  split at h
  · next r₀ d heq =>
    rw [heq] at hnext
    simp only [Prod.mk.injEq, Except.ok.injEq] at h
    obtain ⟨rfl, rfl⟩ := h
    by_cases hcode : r₀.code = Reply.closingCode
    · simp [hcode]
    · have hother : (r₀.code == Reply.closingCode) = false := beq_eq_false_iff_ne.mpr hcode
      simpa [hcode, hother] using hnext.trans hopen
  · simp [fail] at h
  · simp [fail] at h

theorem request_of_encode_error {command : Command} {c : Connection} {e : ExchangeError}
    (hopen : c.isOpen = true) (h : command.encode = .error e) : request command c = fail e c := by
  simp [request, hopen, h]

theorem request_of_encode_ok {command : Command} {c : Connection} {line : Octets}
    (hopen : c.isOpen = true) (h : command.encode = .ok line) :
    request command c = read (c.deliver line) := by
  simp [request, hopen, h]

theorem heeds_request (command : Command) : Heeds (request command) := by
  intro c e c' hopen h
  cases hencode : command.encode with
  | error e₀ =>
    rw [request_of_encode_error hopen hencode] at h
    exact heeds_fail e₀ hopen h
  | ok line =>
    have hdelivered : (c.deliver line).isOpen = true := hopen
    rw [request_of_encode_ok hopen hencode] at h
    exact heeds_read hdelivered h

theorem isOpen_of_request {command : Command} {c c' : Connection} {r : Reply}
    (hopen : c.isOpen = true) (h : request command c = (.ok r, c')) :
    c'.isOpen = !(r.code == Reply.closingCode) := by
  cases hencode : command.encode with
  | error e =>
    rw [request_of_encode_error hopen hencode] at h
    simp [fail] at h
  | ok line =>
    have hdelivered : (c.deliver line).isOpen = true := hopen
    rw [request_of_encode_ok hopen hencode] at h
    exact isOpen_of_read hdelivered h

end Connection

/-! ## Verbs -/

section

variable {verb : String} {args : Option String} {codes : List Nat}

theorem heeds_ask : Heeds (ask verb args codes : Exchange Connection Reply) := by
  intro c e c' hopen h
  rcases Exchange.bind_eq_error h with hfailed | ⟨r, d, hanswered, hrefused⟩
  · exact Connection.heeds_request _ hopen hfailed
  · -- The reply is refused for its code, and the error is as fatal as the reply.
    obtain ⟨hexpect, rfl⟩ := Prod.mk.inj hrefused
    obtain rfl : .unexpected r = e := by
      unfold Reply.expect at hexpect
      split at hexpect <;> simp_all
    exact Connection.isOpen_of_request hopen hanswered

theorem heeds_tell : Heeds (tell verb args codes : Exchange Connection Unit) :=
  heeds_ask.bind_pure fun _ => ()

theorem ask_eq_ok {c c' : Connection} {r : Reply} (h : ask verb args codes c = (.ok r, c')) :
    Connection.request ⟨verb, args⟩ c = (.ok r, c') ∧ r.code ∈ codes := by
  obtain ⟨r₀, d, hanswered, hexpect⟩ := Exchange.bind_eq_ok h
  rw [Exchange.ofExcept_apply] at hexpect
  obtain ⟨haccepted, rfl⟩ := Prod.mk.inj hexpect
  obtain ⟨rfl, hmem⟩ := Reply.expect_eq_ok_iff.mp haccepted
  exact ⟨hanswered, hmem⟩

theorem isOpen_of_ask {c c' : Connection} {r : Reply} (hcodes : Reply.closingCode ∉ codes)
    (hopen : c.isOpen = true) (h : ask verb args codes c = (.ok r, c')) : c'.isOpen = true := by
  obtain ⟨hrequest, hmem⟩ := ask_eq_ok h
  have hcode : (r.code == Reply.closingCode) = false :=
    beq_eq_false_iff_ne.mpr fun heq => hcodes (heq ▸ hmem)
  simpa [hcode] using Connection.isOpen_of_request hopen hrequest

end

/-! ## Calls -/

/-- A call that fails although its exchange with the server does not: what it shall announce has no
written form, or the reply that it accepts names no endpoint. -/
def Call.Misfires (call : Call) (c : Connection) : Prop :=
  match call with
  | .port (.v6 ..) => True
  | .pasv => ∃ r c', ask "PASV" none [227] c = (.ok r, c') ∧ HostPort.find? r.text.toList = none
  | _ => False

theorem heeds_done {x : Exchange Connection Unit} (hx : Heeds x) : Heeds (done x) :=
  hx.bind_pure fun _ => Answer.done

/-- A call for an endpoint fails in its exchange, or over a reply that names none. -/
theorem pasv_of_error {c c' : Connection} {e : ExchangeError}
    (h : pasv c = (.error e, c')) : ask "PASV" none [227] c = (.error e, c') ∨
      ∃ r, ask "PASV" none [227] c = (.ok r, c') ∧ HostPort.find? r.text.toList = none ∧
        e.isFatal = true := by
  rcases Exchange.bind_eq_error h with hfailed | ⟨r, d, hanswered, hparse⟩
  · exact Or.inl hfailed
  · rw [Exchange.ofExcept_apply] at hparse
    obtain ⟨hunreadable, rfl⟩ := Prod.mk.inj hparse
    obtain ⟨hnone, rfl⟩ := HostPort.parse_eq_error_iff.mp hunreadable
    exact Or.inr ⟨r, hanswered, hnone, rfl⟩

namespace Call

/-- A call that does not misfire heeds the errors that it fails with. -/
theorem isOpen_run_of_not_misfires {call : Call} {c c' : Connection} {e : ExchangeError}
    (hcall : call ≠ .close) (hopen : c.isOpen = true) (hfires : ¬ call.Misfires c)
    (h : call.run c = (.error e, c')) : c'.isOpen = !e.isFatal := by
  cases call with
  | request command => exact (Connection.heeds_request command).bind_pure _ hopen h
  | read => exact Connection.heeds_read.bind_pure _ hopen h
  | user name =>
    have huser : Heeds (Control.user name) := heeds_ask.bind_pure _
    exact huser.bind_pure _ hopen h
  | port address =>
    cases address with
    | v4 endpoint => exact heeds_done heeds_tell hopen h
    | v6 => exact absurd trivial hfires
  | pasv =>
    rcases Exchange.bind_eq_error h with hfailed | ⟨_, _, -, hpure⟩
    · rcases pasv_of_error hfailed with hasked | ⟨r, hanswered, hnone, -⟩
      · exact heeds_ask hopen hasked
      · exact absurd ⟨r, c', hanswered, hnone⟩ hfires
    · simp at hpure
  | close => exact absurd rfl hcall
  | _ => exact heeds_done heeds_tell hopen h

/-- A call that misfires fails with a fatal error, and the connection stays open. -/
theorem isOpen_run_of_misfires {call : Call} {c c' : Connection} {e : ExchangeError}
    (hopen : c.isOpen = true) (hfires : call.Misfires c) (h : call.run c = (.error e, c')) :
    e.isFatal = true ∧ c'.isOpen = true := by
  cases call with
  | port address =>
    cases address with
    | v4 endpoint => exact absurd hfires id
    | v6 =>
      obtain ⟨he, rfl⟩ := Prod.mk.inj h
      obtain rfl := Except.error.inj he
      exact ⟨rfl, hopen⟩
  | pasv =>
    obtain ⟨r, d, hanswered, hnone⟩ := hfires
    have hclosing : Reply.closingCode ∉ [227] := by decide
    rcases Exchange.bind_eq_error h with hfailed | ⟨_, _, -, hpure⟩
    · rcases pasv_of_error hfailed with hasked | ⟨r', hanswered', -, hfatal⟩
      · simp [hanswered] at hasked
      · exact ⟨hfatal, isOpen_of_ask hclosing hopen hanswered'⟩
    · simp at hpure
  | _ => exact absurd hfires id

/-- A call over an open connection that fails closes it exactly if the error is fatal, unless it
misfires: then the error is fatal, and the connection stays open. -/
theorem isOpen_run_of_error {call : Call} {c c' : Connection} {e : ExchangeError}
    (hcall : call ≠ .close) (hopen : c.isOpen = true) (h : call.run c = (.error e, c')) :
    (¬ call.Misfires c → c'.isOpen = !e.isFatal) ∧
      (call.Misfires c → e.isFatal = true ∧ c'.isOpen = true) :=
  ⟨fun hfires => isOpen_run_of_not_misfires hcall hopen hfires h,
    fun hfires => isOpen_run_of_misfires hopen hfires h⟩

/-- A connection from a local address, whose server sends this in answer to whatever it gets. -/
def answering (text : String) : Connection :=
  .made (.v4 ⟨.loopback, 40000⟩) [Octets.ofText text]

/-- A refusal keeps the session, and the end of the session closes it. -/
theorem isOpen_run_noop : ∃ refused ended kept closed,
    Call.run .noop (answering "500 no\r\n") = (.error refused, kept) ∧
      kept.isOpen = !refused.isFatal ∧ kept.isOpen = true ∧
        Call.run .noop (answering "421 bye\r\n") = (.error ended, closed) ∧
          closed.isOpen = !ended.isFatal ∧ closed.isOpen = false := by
  have hopen (text : String) : (answering text).isOpen = true := rfl
  have hrefused : Call.run .noop (answering "500 no\r\n") = (.error (.unexpected ⟨500, "no"⟩), _) :=
    rfl
  have hended : Call.run .noop (answering "421 bye\r\n") = (.error (.unexpected ⟨421, "bye"⟩), _) :=
    rfl
  have hkept := isOpen_run_of_error Call.noConfusion (hopen _) hrefused
  have hclosed := isOpen_run_of_error Call.noConfusion (hopen _) hended
  exact ⟨_, _, _, _, hrefused, hkept.1 id, rfl, hended, hclosed.1 id, rfl⟩

/-- Two calls that fail with a fatal error and leave the connection open: one announces an IPv6
endpoint, and the other is answered without an endpoint. -/
theorem isOpen_run_misfired :
    (∃ e kept, Call.run (.port (.v6 (.replicate 8 0) 21 0)) (answering "200 ok\r\n") =
        (.error e, kept) ∧ e.isFatal = true ∧ kept.isOpen = true) ∧
      ∃ e kept, Call.run .pasv (answering "227 no\r\n") = (.error e, kept) ∧
        e.isFatal = true ∧ kept.isOpen = true := by
  constructor
  · exact ⟨_, _, rfl, rfl, rfl⟩
  · have hanswered : ask "PASV" none [227] (answering "227 no\r\n") = (.ok ⟨227, "no"⟩, _) := rfl
    have hnone : HostPort.find? "no".toList = none := by
      simp [HostPort.find?, HostPort.isDigit]
    have hpasv := Exchange.bind_ok (f := fun r => Exchange.ofExcept (HostPort.parse r.text))
      hanswered
    rw [Exchange.ofExcept_apply, HostPort.parse_eq_error_iff.mpr ⟨hnone, rfl⟩] at hpasv
    exact ⟨_, _, Exchange.bind_error hpasv, rfl, rfl⟩

end Call

end FaxClient.Control
