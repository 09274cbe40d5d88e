import FaxClient.Control.Script
import Mathlib

/-!
# Inquiries over a scripted connection

An inquiry is a command together with the replies that let the conversation go on.  Inquiries are
made one after the other, and the first reply that is not one of these ends the conversation.  What
is said, and whether all of it was agreed to, depends on the answers alone.

An exchange follows a list of inquiries if it says just this, takes one answer for each command, and
succeeds exactly if all was agreed to.  Exchanges made of such exchanges follow the inquiries of
their parts, one after the other.
-/

namespace FaxClient.Control

structure Inquiry where
  command : Command
  accepts : Reply → Bool

namespace Inquiry

/-- Whether an answer, if there is one, lets the conversation go on. -/
def goesOn (q : Inquiry) : Option (Except ExchangeError Reply) → Bool
  | some (.ok r) => q.accepts r
  | _ => false

theorem goesOn_eq_true_iff {q : Inquiry} {answer : Option (Except ExchangeError Reply)} :
    q.goesOn answer = true ↔ ∃ r, answer = some (.ok r) ∧ q.accepts r = true := by
  unfold goesOn
  split <;> simp_all

/-- The commands that are sent. -/
def said : List Inquiry → List (Except ExchangeError Reply) → List Command
  | [], _ => []
  | q :: rest, answers =>
    q.command :: if q.goesOn answers.head? then said rest answers.tail else []

def agreed : List Inquiry → List (Except ExchangeError Reply) → Bool
  | [], _ => true
  | q :: rest, answers => q.goesOn answers.head? && agreed rest answers.tail

variable {qs qs' : List Inquiry} {answers : List (Except ExchangeError Reply)}

@[simp] theorem said_nil (answers : List (Except ExchangeError Reply)) : said [] answers = [] := rfl

@[simp] theorem agreed_nil (answers : List (Except ExchangeError Reply)) :
    agreed [] answers = true := rfl

theorem said_of_agreed (h : agreed qs answers = true) :
    said qs answers = qs.map (·.command) := by
  induction qs generalizing answers with
  | nil => rfl
  | cons q qs ih =>
    rw [agreed, Bool.and_eq_true] at h
    simp [said, h.1, ih h.2]

theorem said_isPrefix (qs : List Inquiry) (answers : List (Except ExchangeError Reply)) :
    said qs answers <+: qs.map (·.command) := by
  induction qs generalizing answers with
  | nil => exact List.prefix_rfl
  | cons q qs ih =>
    rw [said, List.map_cons, List.prefix_cons_inj]
    split
    · exact ih answers.tail
    · exact List.nil_prefix

theorem agreed_append (qs qs' : List Inquiry) (answers : List (Except ExchangeError Reply)) :
    agreed (qs ++ qs') answers = (agreed qs answers && agreed qs' (answers.drop qs.length)) := by
  induction qs generalizing answers with
  | nil => simp
  | cons q qs ih => simp [agreed, ih, Bool.and_assoc]

theorem said_append_of_agreed (h : agreed qs answers = true) :
    said (qs ++ qs') answers = said qs answers ++ said qs' (answers.drop qs.length) := by
  induction qs generalizing answers with
  | nil => simp
  | cons q qs ih =>
    rw [agreed, Bool.and_eq_true] at h
    simp [said, h.1, ih h.2]

theorem said_append_of_not_agreed (h : agreed qs answers = false) :
    said (qs ++ qs') answers = said qs answers := by
  induction qs generalizing answers with
  | nil => simp at h
  | cons q qs ih =>
    rw [List.cons_append, said, said]
    cases hq : q.goesOn answers.head? with
    | false => rfl
    | true =>
      rw [agreed, hq, Bool.true_and] at h
      simp [ih h]

/-- A command is followed by another only if its answer was accepted. -/
theorem goesOn_of_lt_length_said {i : ℕ} {q : Inquiry} (hi : i + 1 < (said qs answers).length)
    (hq : qs[i]? = some q) : q.goesOn answers[i]? = true := by
  induction qs generalizing answers i with
  | nil => simp at hq
  | cons q₀ qs ih =>
    cases hgoes : q₀.goesOn answers.head? with
    | false => simp [said, hgoes] at hi
    | true =>
      cases i with
      | zero =>
        obtain rfl : q₀ = q := by simpa using hq
        rwa [List.head?_eq_getElem?] at hgoes
      | succ i =>
        have hlength : i + 1 < (said qs answers.tail).length := by
          simp only [said, hgoes, if_true, List.length_cons] at hi
          omega
        rw [List.getElem?_cons_succ] at hq
        simpa using ih hlength hq

/-- The conversation ends early only because the last answer was not accepted. -/
theorem not_goesOn_of_length_said {i : ℕ} {q : Inquiry} (hi : (said qs answers).length = i + 1)
    (hq : qs[i]? = some q) (hmore : i + 1 < qs.length) : q.goesOn answers[i]? = false := by
  induction qs generalizing answers i with
  | nil => simp at hq
  | cons q₀ qs ih =>
    cases hgoes : q₀.goesOn answers.head? with
    | false =>
      obtain rfl : i = 0 := by simpa [said, hgoes] using hi.symm
      obtain rfl : q₀ = q := by simpa using hq
      rwa [List.head?_eq_getElem?] at hgoes
    | true =>
      have hlength : (said qs answers.tail).length = i := by
        simpa [said, hgoes] using hi
      cases i with
      | zero =>
        -- Something is left to ask, so something is said.
        cases qs with
        | nil => simp at hmore
        | cons q₁ qs => simp [said] at hlength
      | succ i =>
        rw [List.getElem?_cons_succ] at hq
        have hrest : i + 1 < qs.length := by simpa using hmore
        simpa using ih hlength hq hrest

theorem length_said_pos (h : qs ≠ []) (answers : List (Except ExchangeError Reply)) :
    0 < (said qs answers).length := by
  cases qs with
  | nil => exact absurd rfl h
  | cons q qs => simp [said]

end Inquiry

namespace Script

open Inquiry

/-- The answer to whatever is asked next. -/
def answer (s : Script) : Except ExchangeError Reply := s.answers.headD (.error .closed)

theorem answer_eq_ok_iff {s : Script} {r : Reply} :
    s.answer = .ok r ↔ s.answers.head? = some (.ok r) := by
  unfold answer
  cases s.answers <;> simp

/-- A script after commands, each of which has taken an answer. -/
def after (s : Script) (commands : List Command) : Script :=
  { s with answers := s.answers.drop commands.length, acts := s.acts ++ commands.map .sent }

def afterRead (s : Script) : Script :=
  { s with answers := s.answers.tail, acts := s.acts ++ [.read] }

/-- The answer to what is asked after so many other things. -/
def answerAt (s : Script) (i : ℕ) : Except ExchangeError Reply := s.answers.getD i (.error .closed)

theorem answer_after (s : Script) (commands : List Command) :
    (s.after commands).answer = s.answerAt commands.length := by
  simp [answer, answerAt, after, List.headD_eq_head?_getD, List.getD_eq_getElem?_getD]

@[simp] theorem after_nil (s : Script) : s.after [] = s := by simp [after]

theorem after_append (s : Script) (xs ys : List Command) :
    s.after (xs ++ ys) = (s.after xs).after ys := by
  simp [after, List.drop_drop]

@[simp] theorem localAddress?_after (s : Script) (commands : List Command) :
    Control.localAddress? (s.after commands) = Control.localAddress? s := rfl

theorem request_apply (command : Command) (s : Script) :
    Control.request command s = (s.answer, s.after [command]) := by
  change take (.sent command) s = _
  cases h : s.answers <;> simp [take, answer, after, h]

theorem read_apply (s : Script) : Control.read s = (s.answer, s.afterRead) := by
  change take .read s = _
  cases h : s.answers <;> simp [take, answer, afterRead, h]

/-- Whether the next answer lets a conversation go on after an inquiry. -/
theorem goesOn_head? (q : Inquiry) (s : Script) :
    q.goesOn s.answers.head? = match s.answer with
      | .ok r => q.accepts r
      | .error _ => false := by
  unfold answer
  cases h : s.answers with
  | nil => rfl
  | cons a rest => cases a <;> rfl

/-- An exchange that says what these inquiries ask for, takes an answer for each command, and
succeeds if all was agreed to. -/
def Follows {α : Type} (x : Exchange Script α) (qs : List Inquiry) : Prop :=
  ∀ s, ∃ result, x s = (result, s.after (said qs s.answers)) ∧ result.isOk = agreed qs s.answers

section

variable {α β : Type} {x : Exchange Script α} {qs qs' : List Inquiry}

theorem follows_pure (a : α) : Follows (pure a : Exchange Script α) [] :=
  fun s => ⟨.ok a, by simp, rfl⟩

theorem Follows.bind {f : α → Exchange Script β} (hx : Follows x qs)
    (hf : ∀ a, Follows (f a) qs') : Follows (x >>= f) (qs ++ qs') := by
  intro s
  obtain ⟨result, hrun, hagreed⟩ := hx s
  cases result with
  | error e =>
    refine ⟨.error e, ?_, ?_⟩
    · rw [Exchange.bind_error hrun, said_append_of_not_agreed hagreed.symm]
    · rw [agreed_append, ← hagreed]
      rfl
  | ok a =>
    have hagreed : agreed qs s.answers = true := hagreed.symm
    -- The second exchange begins with the answers that the first has left.
    have hleft : (s.after (said qs s.answers)).answers = s.answers.drop qs.length := by
      simp [after, said_of_agreed hagreed]
    obtain ⟨result', hrun', hagreed'⟩ := hf a (s.after (said qs s.answers))
    rw [hleft] at hrun' hagreed'
    refine ⟨result', ?_, ?_⟩
    · rw [Exchange.bind_ok hrun, hrun', said_append_of_agreed hagreed, after_append]
    · rw [agreed_append, hagreed, Bool.true_and, hagreed']

/-- A command whose reply is looked at follows one inquiry, which accepts the replies that pass. -/
theorem follows_request (command : Command) (check : Reply → Except ExchangeError α) :
    Follows (do Exchange.ofExcept (check (← Control.request command)))
      [⟨command, fun r => (check r).isOk⟩] := by
  intro s
  have hrequest := request_apply command s
  have hagreed : agreed [⟨command, fun r => (check r).isOk⟩] s.answers = match s.answer with
      | .ok r => (check r).isOk
      | .error _ => false := by
    rw [agreed, agreed_nil, Bool.and_true, goesOn_head?]
  cases hanswer : s.answer with
  | error e =>
    rw [hanswer] at hrequest hagreed
    exact ⟨.error e, by rw [Exchange.bind_error hrequest]; simp [said], hagreed.symm⟩
  | ok r =>
    rw [hanswer] at hrequest hagreed
    refine ⟨check r, ?_, hagreed.symm⟩
    rw [Exchange.bind_ok hrequest, Exchange.ofExcept_apply]
    simp [said]

end

/-! ## The verbs -/

/-- The inquiry of a verb that is prepared for certain codes. -/
def inquiry (verb : String) (args : Option String) (codes : List Nat) : Inquiry :=
  ⟨⟨verb, args⟩, fun r => codes.contains r.code⟩

theorem isOk_expect (r : Reply) (codes : List Nat) :
    (r.expect codes).isOk = codes.contains r.code := by
  unfold Reply.expect
  by_cases h : r.code ∈ codes
  · simp [h, Except.isOk, Except.toBool]
  · simp [h, Except.isOk, Except.toBool]

theorem follows_ask (verb : String) (args : Option String) (codes : List Nat) :
    Follows (ask verb args codes) [inquiry verb args codes] := by
  have h := follows_request ⟨verb, args⟩ (Reply.expect · codes)
  simp only [isOk_expect] at h
  exact h

theorem ask_apply (verb : String) (args : Option String) (codes : List Nat) (s : Script) :
    ask verb args codes s = (s.answer.bind (·.expect codes), s.after [⟨verb, args⟩]) := by
  rw [ask, Exchange.bind_apply, request_apply]
  cases s.answer <;> rfl

theorem tell_apply (verb : String) (args : Option String) (codes : List Nat) (s : Script) :
    tell verb args codes s =
      ((s.answer.bind (·.expect codes)).map fun _ => (), s.after [⟨verb, args⟩]) := by
  rw [tell, Exchange.bind_apply, ask_apply]
  cases s.answer.bind (·.expect codes) <;> rfl

theorem follows_tell (verb : String) (args : Option String) (codes : List Nat) :
    Follows (tell verb args codes) [inquiry verb args codes] :=
  (follows_ask verb args codes).bind fun _ => follows_pure ()

end Script

end FaxClient.Control
