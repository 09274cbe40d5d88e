import FaxClient.Proofs.Control.Inquiry
import FaxClient.Proofs.Transfer.Announcements
import FaxClient.Transfer.Document
import FaxClient.Zlib

/-!
# The conversation about a document

Storing and retrieving are conversations over the control connection.  The representation, the mode
and the data connection are asked for in turn, then the verb is sent, and each command waits until
the one before it was accepted.  Every command takes one reply, and one more is read after the
verb exactly if its first reply announces another, whatever becomes of the transfer.  So the next
command on the connection meets its own reply.

A transfer is started only for the verb, on a task of its own.  If no other reply is announced the
transfer is cancelled, wherever it has got to by then.  In any case the call waits for its end, so it
does not return before the transfer is over.
-/

namespace FaxClient.Transfer

open Control (Script Inquiry)
open Control.Inquiry (said agreed)

namespace Handling

/-! ## What is asked -/

def terms (h : Handling) : List Inquiry :=
  [Script.inquiry "TYPE" (some h.options.settings.representation.code) [200],
    Script.inquiry "MODE" (some h.options.settings.mode.code) [200]]

/-- An endpoint is asked for; the reply must name one. -/
def endpointInquiry : Inquiry :=
  ⟨⟨"PASV", none⟩, fun r => r.code == 227 && (HostPort.parse r.text).isOk⟩

def listenerInquiry (e : Endpoint) : Inquiry :=
  Script.inquiry "PORT" (some (HostPort.encode e)) [200]

/-- The data connection is asked for, unless a listener is wanted that cannot be opened or
announced. -/
def arrangement? (h : Handling) (s : Script) : Option Inquiry :=
  match h.options.side with
  | .passive => some endpointInquiry
  | .active =>
    match h.listen (listenAddress s) with
    | .ok (.v4 e) => some (listenerInquiry e)
    | _ => none

def verbInquiry (verb : Command) : Inquiry := ⟨verb, Reply.isPreliminary⟩

/-- All that is asked, as long as every reply is accepted. -/
def plan (h : Handling) (verb : Command) (s : Script) : List Inquiry :=
  h.terms ++ match h.arrangement? s with
    | some arrangement => [arrangement, verbInquiry verb]
    | none => []

/-! ## Before the verb -/

theorem follows_setTerms (h : Handling) :
    Script.Follows (setTerms h : Exchange Script Unit) h.terms :=
  (Script.follows_tell _ _ _).bind fun _ => Script.follows_tell _ _ _

theorem follows_pasv : Script.Follows (Control.pasv : Exchange Script Endpoint)
    [endpointInquiry] := by
  have heq : (Control.pasv : Exchange Script Endpoint) =
      (do Exchange.ofExcept ((fun r : Reply => (r.expect [227]).bind fun r => HostPort.parse r.text)
        (← Control.request ⟨"PASV", none⟩))) := by
    funext s
    simp only [Control.pasv, Control.ask, Exchange.bind_apply, Script.request_apply]
    cases s.answer with
    | error e => rfl
    | ok r =>
      simp only [Exchange.ofExcept_apply]
      cases r.expect [227] <;> rfl
  have haccepts : (fun r : Reply => ((r.expect [227]).bind fun r => HostPort.parse r.text).isOk) =
      fun r => r.code == 227 && (HostPort.parse r.text).isOk := by
    funext r
    by_cases hcode : r.code = 227
    · simp [Reply.expect, hcode, Except.bind]
    · simp [Reply.expect, hcode, Except.bind, Except.isOk, Except.toBool]
  have hfollows := Script.follows_request ⟨"PASV", none⟩
    fun r : Reply => (r.expect [227]).bind fun r => HostPort.parse r.text
  rw [haccepts] at hfollows
  rw [heq]
  exact hfollows

theorem follows_port (e : Endpoint) :
    Script.Follows (Control.port (.v4 e) : Exchange Script Unit) [listenerInquiry e] :=
  Script.follows_tell "PORT" (some (HostPort.encode e)) [200]

section

variable {α : Type} {x : Exchange Script α} {qs : List Inquiry}

theorem negotiate_of_follows (hx : Script.Follows x qs) (s : Script) :
    ∃ result, negotiate x s = (result, s.after (said qs s.answers)) ∧
      result.isOk = agreed qs s.answers := by
  obtain ⟨result, hrun, hagreed⟩ := hx s
  cases result with
  | ok a => exact ⟨.ok a, by simp [negotiate, hrun], hagreed⟩
  | error e => exact ⟨.error (.command e), by simp [negotiate, hrun], hagreed⟩

end

/-- What is asked to arrange the data connection is asked in one inquiry, and the verb comes next
exactly if that was agreed to. -/
theorem arrange_of_arrangement (h : Handling) {s : Script} {q : Inquiry}
    (hq : h.arrangement? s = some q) :
    ∃ result, h.arrange s = (result, s.after (said [q] s.answers)) ∧
      result.isOk = agreed [q] s.answers ∧ ∀ a, result = .ok a → a.side = h.options.side := by
  cases hside : h.options.side with
  | passive =>
    obtain rfl : endpointInquiry = q := by simpa [arrangement?, hside] using hq
    obtain ⟨result, hrun, hagreed⟩ := negotiate_of_follows follows_pasv s
    cases result with
    | ok e =>
      refine ⟨.ok ⟨.passive, .v4 e⟩, by simp [arrange, hside, hrun], hagreed, ?_⟩
      rintro a ⟨⟩
      rfl
    | error e => exact ⟨.error e, by simp [arrange, hside, hrun], hagreed, by rintro a ⟨⟩⟩
  | active =>
    simp only [arrangement?, hside] at hq
    split at hq
    · next e hlisten =>
      obtain rfl := Option.some.inj hq
      obtain ⟨result, hrun, hagreed⟩ := negotiate_of_follows (follows_port e) s
      cases result with
      | ok u =>
        refine ⟨.ok ⟨.active, .v4 e⟩, by simp [arrange, hside, hlisten, hrun], hagreed, ?_⟩
        rintro a ⟨⟩
        rfl
      | error e' =>
        exact ⟨.error e', by simp [arrange, hside, hlisten, hrun], hagreed, by rintro a ⟨⟩⟩
    · simp at hq

/-- Without a listener that can be announced nothing more is asked. -/
theorem arrange_of_no_arrangement (h : Handling) {s : Script} (hq : h.arrangement? s = none) :
    ∃ e, h.arrange s = (.error e, s) := by
  cases hside : h.options.side with
  | passive => simp [arrangement?, hside] at hq
  | active =>
    cases hlisten : h.listen (listenAddress s) with
    | error fault => exact ⟨.bind fault, by simp [arrange, hside, hlisten]⟩
    | ok a =>
      cases a with
      | v4 e => simp [arrangement?, hside, hlisten] at hq
      | v6 ip port scope =>
        obtain ⟨e, hport⟩ : ∃ e, negotiate (Control.port (.v6 ip port scope)) s = (.error e, s) :=
          ⟨_, rfl⟩
        exact ⟨e, by simp [arrange, hside, hlisten, hport]⟩

/-- What is asked before the verb. -/
def negotiation (h : Handling) (s : Script) : List Inquiry := h.terms ++ (h.arrangement? s).toList

/-- Everything is ready for the verb exactly if all was agreed to and there was all to ask. -/
theorem prepare_cases (h : Handling) (s : Script) :
    ∃ result, h.prepare s = (result, s.after (said (h.negotiation s) s.answers)) ∧
      (result.isOk = (agreed (h.negotiation s) s.answers && (h.arrangement? s).isSome)) ∧
        ∀ a, result = .ok a → a.side = h.options.side := by
  obtain ⟨result, hrun, hagreed⟩ := negotiate_of_follows h.follows_setTerms s
  cases result with
  | error e =>
    have hterms : agreed h.terms s.answers = false := hagreed.symm
    refine ⟨.error e, ?_, ?_, by rintro a ⟨⟩⟩
    · simp [prepare, hrun, negotiation, Control.Inquiry.said_append_of_not_agreed hterms]
    · rw [negotiation, Control.Inquiry.agreed_append, hterms]
      rfl
  | ok u =>
    have hterms : agreed h.terms s.answers = true := hagreed.symm
    let mid := s.after (said h.terms s.answers)
    have hleft : mid.answers = s.answers.drop h.terms.length := by
      simp [mid, Script.after, Control.Inquiry.said_of_agreed hterms]
    have hsame : h.arrangement? mid = h.arrangement? s := rfl
    have hprepare : h.prepare s = h.arrange mid := by simp [prepare, hrun, mid]
    cases hq : h.arrangement? s with
    | none =>
      obtain ⟨e, harrange⟩ := h.arrange_of_no_arrangement (hsame.trans hq)
      refine ⟨.error e, ?_, ?_, by rintro a ⟨⟩⟩
      · rw [hprepare, harrange]
        simp [negotiation, hq, mid]
      · rw [Option.isSome_none, Bool.and_false]
        rfl
    | some q =>
      obtain ⟨result, harrange, hok, hside⟩ := h.arrange_of_arrangement (hsame.trans hq)
      rw [hleft] at harrange hok
      refine ⟨result, ?_, ?_, hside⟩
      · have hsaid : said (h.negotiation s) s.answers = said h.terms s.answers ++
            said [q] (s.answers.drop h.terms.length) := by
          rw [negotiation, hq, Option.toList_some, Control.Inquiry.said_append_of_agreed hterms]
        rw [hprepare, harrange, hsaid, Script.after_append]
      · calc result.isOk
          _ = (agreed h.terms s.answers && agreed [q] (s.answers.drop h.terms.length)) := by
            rw [hok, hterms, Bool.true_and]
          _ = (agreed (h.negotiation s) s.answers && (some q).isSome) := by
            rw [negotiation, hq, Option.toList_some, Control.Inquiry.agreed_append,
              Option.isSome_some, Bool.and_true]

/-! ## The verb and the transfer -/

end Handling

/-- The end of a transfer was waited for, and is that of a transfer that was cancelled or not, as
this one was. -/
def Task.Joined (t : Task) : Prop := t.report = some (t.fate t.cancelled)

theorem Task.joined_join (t : Task) : t.join.2.Joined := rfl

/-- A transfer is over: it has announced its last event, unless its task broke down. -/
def Report.Over (r : Report) : Prop :=
  (∃ what, r.result = .error (.worker what)) ∨ (∃ reason, r.events = unopenedEvents reason) ∨
    ∃ peer totals last, r.events = openedEvents peer totals last

theorem Report.Tells.over {r : Report} (h : r.Tells) : r.Over := by
  cases h with
  | unopened e hresult he hevents => exact Or.inr (Or.inl ⟨_, hevents⟩)
  | opened peer totals last hrising hevents hpayload =>
    exact Or.inr (Or.inr ⟨peer, totals, last, hevents⟩)

theorem Course.over_report (c : Course) (settings : Settings) (side : Side) (direction : Direction)
    (codec : Codec) : (c.report settings side direction codec).Over := by
  unfold report
  cases c.breakdown with
  | none => exact (Plan.tells_run _ _ _).over
  | some b => exact Or.inl ⟨b.what, rfl⟩

namespace Handling

/-- What was said about a document and what was started for it: `sent` are the commands that were
sent from `s` on, and `readsLast` says whether a reply was read after all of them. -/
structure InStep (h : Handling) (direction : Direction) (verb : Command) (s : Script)
    (sent : List Command) (readsLast : Bool) (venture : Venture) (s' : Script) : Prop where
  begun : sent ≠ []
  planned : sent <+: (h.plan verb s).map (·.command)
  /-- A command is followed by another only if its reply was accepted. -/
  accepted : ∀ i q, i + 1 < sent.length → (h.plan verb s)[i]? = some q →
    ∃ r, s.answers[i]? = some (.ok r) ∧ q.accepts r = true
  /-- Nothing but a reply that is not accepted ends the conversation early. -/
  brokenOff : ∀ i q r, sent.length = i + 1 → i + 1 < (h.plan verb s).length →
    (h.plan verb s)[i]? = some q → s.answers[i]? = some (.ok r) → q.accepts r = false
  readsLast_iff : readsLast = true ↔ sent.length = 4 ∧
    ∃ first, s.answers[3]? = some (.ok first) ∧ first.isPreliminary = true
  acts_eq : s'.acts = s.acts ++ sent.map .sent ++ if readsLast then [.read] else []
  /-- Every command has taken one answer, and so has the reading of the last reply. -/
  answers_eq : s'.answers = s.answers.drop (sent.length + if readsLast then 1 else 0)
  /-- Once the verb is sent, a transfer was started.  It was cancelled unless the last reply is read,
  and then, in either case, its end was waited for. -/
  started : sent.length = 4 → ∃ a task, a.side = h.options.side ∧ venture = .task task ∧
    task.fate = h.worker direction a ∧ (task.cancelled = true ↔ readsLast = false) ∧ task.Joined ∧
      ∀ r, task.report = some r → r.Over
  unstarted : sent.length < 4 → ∀ task, venture ≠ .task task

theorem length_plan_of_some {h : Handling} {s : Script} {q : Inquiry}
    (hq : h.arrangement? s = some q) (verb : Command) : (h.plan verb s).length = 4 := by
  simp [plan, hq, terms]

theorem plan_of_some {h : Handling} {s : Script} {q : Inquiry} (hq : h.arrangement? s = some q)
    (verb : Command) : h.plan verb s = h.negotiation s ++ [verbInquiry verb] := by
  simp [plan, negotiation, hq]

/-- The conversation ends before the verb. -/
theorem inStep_of_unprepared {h : Handling} {s : Script} (direction : Direction) (verb : Command)
    {venture : Venture}
    (hagreed : (agreed (h.negotiation s) s.answers && (h.arrangement? s).isSome) = false)
    (hventure : ∀ task, venture ≠ .task task) :
    h.InStep direction verb s (said (h.negotiation s) s.answers) false venture
      (s.after (said (h.negotiation s) s.answers)) := by
  have hsaid : said (h.plan verb s) s.answers = said (h.negotiation s) s.answers := by
    cases hq : h.arrangement? s with
    | none => simp [plan, negotiation, hq]
    | some q =>
      rw [plan_of_some hq]
      apply Control.Inquiry.said_append_of_not_agreed
      simpa [hq] using hagreed
  have hlength : (said (h.negotiation s) s.answers).length < 4 := by
    have hle := (Control.Inquiry.said_isPrefix (h.negotiation s) s.answers).length_le
    have hthree : (h.negotiation s).length ≤ 3 := by
      cases hq : h.arrangement? s <;> simp [negotiation, terms, hq]
    rw [List.length_map] at hle
    omega
  rw [← hsaid] at hlength ⊢
  refine ⟨?_, Control.Inquiry.said_isPrefix _ _, ?_, ?_, ?_, by simp [Script.after], rfl, ?_,
    fun _ => hventure⟩
  · exact List.ne_nil_of_length_pos (Control.Inquiry.length_said_pos (by simp [plan, terms]) _)
  · intro i q hi hq
    exact Control.Inquiry.goesOn_eq_true_iff.mp (Control.Inquiry.goesOn_of_lt_length_said hi hq)
  · intro i q r hi hmore hq hr
    have hstops := Control.Inquiry.not_goesOn_of_length_said hi hq hmore
    rwa [hr] at hstops
  · simp only [Bool.false_eq_true, false_iff]
    rintro ⟨hfour, -⟩
    omega
  · intro hfour
    omega

section

variable {h : Handling} {s : Script} {q : Inquiry}

theorem length_negotiation_of_some (hq : h.arrangement? s = some q) :
    (h.negotiation s).length = 3 := by
  simp [negotiation, terms, hq]

/-- The verb comes after a negotiation that was agreed to. -/
theorem said_plan_of_agreed (hagreed : agreed (h.negotiation s) s.answers = true)
    (hq : h.arrangement? s = some q) (verb : Command) :
    said (h.plan verb s) s.answers = said (h.negotiation s) s.answers ++ [verb] := by
  rw [plan_of_some hq, Control.Inquiry.said_append_of_agreed hagreed]
  simp [said, verbInquiry]

theorem length_said_plan (hagreed : agreed (h.negotiation s) s.answers = true)
    (hq : h.arrangement? s = some q) (verb : Command) :
    (said (h.plan verb s) s.answers).length = 4 := by
  have hnegotiation := length_negotiation_of_some hq
  simp [said_plan_of_agreed hagreed hq, Control.Inquiry.said_of_agreed hagreed, hnegotiation]

theorem answer_after_negotiation (hagreed : agreed (h.negotiation s) s.answers = true)
    (hq : h.arrangement? s = some q) (first : Reply) :
    (s.after (said (h.negotiation s) s.answers)).answer = .ok first ↔
      s.answers[3]? = some (.ok first) := by
  have hleft : (s.after (said (h.negotiation s) s.answers)).answers = s.answers.drop 3 := by
    simp [Script.after, Control.Inquiry.said_of_agreed hagreed, length_negotiation_of_some hq]
  rw [Script.answer_eq_ok_iff, hleft, List.head?_drop]

/-- The transfer was started, and this is how the call has left it. -/
theorem inStep_of_agreed {direction : Direction} {verb : Command} {a : Arranged} {task : Task}
    {readsLast : Bool} {s' : Script} (ha : a.side = h.options.side)
    (hagreed : agreed (h.negotiation s) s.answers = true) (hq : h.arrangement? s = some q)
    (hreads : readsLast = true ↔
      ∃ first, s.answers[3]? = some (.ok first) ∧ first.isPreliminary = true)
    (hs' : s' = if readsLast then (s.after (said (h.plan verb s) s.answers)).afterRead
      else s.after (said (h.plan verb s) s.answers))
    (hfate : task.fate = h.worker direction a) (hcancelled : task.cancelled = !readsLast)
    (hjoined : task.Joined) :
    h.InStep direction verb s (said (h.plan verb s) s.answers) readsLast (.task task) s' := by
  have hlength := length_said_plan hagreed hq verb
  refine ⟨?_, Control.Inquiry.said_isPrefix _ _, ?_, ?_, ?_, ?_, ?_, ?_, ?_⟩
  · exact List.ne_nil_of_length_pos (by omega)
  · intro i q hi hq
    exact Control.Inquiry.goesOn_eq_true_iff.mp (Control.Inquiry.goesOn_of_lt_length_said hi hq)
  · intro i q r hi hmore
    rw [length_plan_of_some hq] at hmore
    omega
  · simp only [hreads, hlength, true_and]
  · cases readsLast <;> simp [hs', Script.after, Script.afterRead]
  · cases readsLast <;> simp [hs', Script.after, Script.afterRead, hlength]
  · intro _
    refine ⟨a, task, ha, rfl, hfate, by simp [hcancelled], hjoined, fun r hr => ?_⟩
    obtain rfl : task.fate task.cancelled = r := Option.some.inj (hjoined.symm.trans hr)
    rw [hfate]
    exact Course.over_report ..
  · intro hless
    omega

/-- All was agreed to, the transfer is started, and the verb is sent. -/
theorem inStep_of_prepared (direction : Direction) (verb : Command) {a : Arranged}
    (ha : a.side = h.options.side) (hagreed : agreed (h.negotiation s) s.answers = true)
    (hq : h.arrangement? s = some q) :
    ∃ sent readsLast, h.InStep direction verb s sent readsLast
      (exchange verb (.spawn (h.worker direction a))
        (s.after (said (h.negotiation s) s.answers))).1.venture
      (exchange verb (.spawn (h.worker direction a))
        (s.after (said (h.negotiation s) s.answers))).2 := by
  let mid := s.after (said (h.negotiation s) s.answers)
  have hfirst : ∀ first, mid.answer = .ok first ↔ s.answers[3]? = some (.ok first) :=
    answer_after_negotiation hagreed hq
  have hrequest : Control.request verb mid =
      (mid.answer, s.after (said (h.plan verb s) s.answers)) := by
    rw [Script.request_apply, said_plan_of_agreed hagreed hq, Script.after_append]
  let task : Task := .spawn (h.worker direction a)
  -- The verb has failed, or was refused, or a transfer was announced.
  cases hanswer : mid.answer with
  | error e =>
    rw [hanswer] at hrequest
    have hexchange : exchange verb task mid =
        (⟨.error (.command e), .task task.cancel.join.2⟩,
          s.after (said (h.plan verb s) s.answers)) := by
      simp [exchange, hrequest]
    rw [hexchange]
    refine ⟨_, false, inStep_of_agreed ha hagreed hq ?_ rfl rfl rfl task.cancel.joined_join⟩
    simp [← hfirst, hanswer]
  | ok first =>
    rw [hanswer] at hrequest
    cases hpreliminary : first.isPreliminary with
    | false =>
      have hexchange : exchange verb task mid =
          (⟨.error (.command (.unexpected first)), .task task.cancel.join.2⟩,
            s.after (said (h.plan verb s) s.answers)) := by
        simp [exchange, hrequest, hpreliminary]
      rw [hexchange]
      refine ⟨_, false, inStep_of_agreed ha hagreed hq ?_ rfl rfl rfl task.cancel.joined_join⟩
      simp [← hfirst, hanswer, hpreliminary]
    | true =>
      have hexchange : exchange verb task mid =
          (⟨conclude first task.join.1 (s.after (said (h.plan verb s) s.answers)).answer,
            .task task.join.2⟩, (s.after (said (h.plan verb s) s.answers)).afterRead) := by
        simp [exchange, hrequest, hpreliminary, Script.read_apply]
      rw [hexchange]
      refine ⟨_, true, inStep_of_agreed ha hagreed hq ?_ rfl rfl rfl task.joined_join⟩
      simp [← hfirst, hanswer, hpreliminary]

end

theorem inStep_move (h : Handling) (direction : Direction) (verb : Command) (s : Script) :
    ∃ sent readsLast, h.InStep direction verb s sent readsLast (h.move direction verb s).1.venture
      (h.move direction verb s).2 := by
  obtain ⟨result, hprepare, hok, hside⟩ := h.prepare_cases s
  cases result with
  | ok a =>
    obtain ⟨hagreed, hsome⟩ := Bool.and_eq_true_iff.mp hok.symm
    obtain ⟨q, hq⟩ := Option.isSome_iff_exists.mp hsome
    have hmove : h.move direction verb s = exchange verb (.spawn (h.worker direction a))
        (s.after (said (h.negotiation s) s.answers)) := by
      simp [move, hprepare]
    rw [hmove]
    exact inStep_of_prepared direction verb (hside a rfl) hagreed hq
  | error e =>
    refine ⟨said (h.negotiation s) s.answers, false, ?_⟩
    have hagreed : (agreed (h.negotiation s) s.answers && (h.arrangement? s).isSome) = false :=
      hok.symm
    cases e with
    | bind fault =>
      simp only [move, hprepare]
      exact inStep_of_unprepared direction verb hagreed (by simp)
    | _ =>
      simp only [move, hprepare]
      exact inStep_of_unprepared direction verb hagreed (by simp)

/-- Storing and retrieving keep the control connection in step, whatever the server answers, and
however far the transfer has come when the server does. -/
theorem in_step (h : Handling) (s : Script) :
    (∀ target, ∃ sent readsLast, h.InStep .upload target.command s sent readsLast
      (h.store target s).1.venture (h.store target s).2) ∧
      ∀ path, ∃ sent readsLast, h.InStep .download (retrieval path) s sent readsLast
        (h.retrieve path s).1.venture (h.retrieve path s).2 :=
  ⟨fun target => h.inStep_move .upload target.command s,
    fun path => h.inStep_move .download (retrieval path) s⟩

/-- A retrieval is refused when the data connection is there and two octets have been written.  The
call still waits for the end of the transfer, and then answers with the refusal. -/
example :
    let h : Handling :=
      { options := .default, codec := zlib, listen := fun _ => .error .unavailable,
        opening := fun a => .turn (.now a.address), source := [], sink := .ready,
        watch := fun _ => false,
        unwanted := fun a =>
          ⟨.turn (.now a.address), [.now [97, 98], .stalls], .ready, fun _ => false, false, none⟩ }
    let s : Script := ⟨[.ok ⟨200, "OK"⟩, .ok ⟨200, "OK"⟩, .ok ⟨227, "(127,0,0,1,8,0)"⟩,
      .ok ⟨550, "No"⟩], [], none⟩
    (h.retrieve "doc" s).1.result = .error (.command (.unexpected ⟨550, "No"⟩)) ∧
      (h.retrieve "doc" s).1.report.map (fun r => (r.result, r.written)) =
        some (.ok ⟨2, true⟩, [97, 98]) := by
  decide +kernel

end Handling

end FaxClient.Transfer
