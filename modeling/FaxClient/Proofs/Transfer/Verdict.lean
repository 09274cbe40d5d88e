import FaxClient.Proofs.Transfer.Conversation
import FaxClient.Proofs.Transfer.Undisturbed

/-!
# What comes of storing and retrieving

A document is moved in steps, and each can fail in its own way.  The steps after the verb do not
wait for each other: the transfer goes on while the server answers, and the last reply is read even
if the transfer has failed.  So several may fail, and the error that is reported is that of the
first in the order of the steps, which is not always the order in which they happen.  If none fails,
the outcome is that of the transfer.

Only what the server answers, what the listener and the transfer come to, and, for a document that
is stored, the names in the replies have a say in this.
-/

namespace FaxClient.Transfer

open Control (Script)

def error? {α : Type} : Except Error α → Option Error
  | .error e => some e
  | .ok _ => none

/-- An answer that is one of these replies; another reply is an error that keeps it. -/
def accepted (accepts : Reply → Bool) : Except ExchangeError Reply → Except Error Reply
  | .error e => .error (.command e)
  | .ok r => if accepts r then .ok r else .error (.command (.unexpected r))

/-- The steps of moving a document, in the order in which their failures count. -/
inductive Stage where
  | representation
  | mode
  /-- The data connection is arranged. -/
  | connection
  /-- The first reply to the verb. -/
  | verb
  | transfer
  /-- The last reply to the verb. -/
  | completion
  | naming (target : Target)

def Stage.retrieving : List Stage :=
  [.representation, .mode, .connection, .verb, .transfer, .completion]

def Stage.storing (target : Target) : List Stage := retrieving ++ [.naming target]

/-- The names that a stored document may go by, the first choice first. -/
def Target.fileNames (target : Target) (first last : Reply) : List (Option String) :=
  [FileName.ofText? first.text, FileName.ofText? last.text, target.name?]

def Target.fileName? (target : Target) (first last : Reply) : Option String :=
  (target.fileNames first last).findSome? id

namespace Handling

/-- Nobody cancels a transfer that is started for a document: it cannot be got hold of but by the
exchange itself, which cancels it only if the verb is refused or fails. -/
structure Undisturbed (h : Handling) : Prop where
  opening : ∀ a, (h.opening a).Undisturbed
  source : ∀ turn ∈ h.source, turn.Undisturbed
  sink : h.sink.Undisturbed
  watch : ∀ events, h.watch events = false

/-- Where the data connection is made, if the answer to what asks for it is this one. -/
def arranged (h : Handling) (ip : Ip) (answer : Except ExchangeError Reply) :
    Except Error Arranged :=
  match h.options.side with
  | .passive => do
    let reply ← accepted (·.code == 227) answer
    let e ← (HostPort.parse reply.text).mapError .command
    return ⟨.passive, .v4 e⟩
  | .active => do
    let a ← (h.listen ip).mapError .bind
    let _ ← (HostPort.encode? a).mapError .command
    let _ ← accepted (·.code == 200) answer
    return ⟨.active, a⟩

/-- How a step fails, whatever becomes of the others. -/
def failure? (h : Handling) (direction : Direction) (s : Script) : Stage → Option Error
  | .representation => error? (accepted (·.code == 200) (s.answerAt 0))
  | .mode => error? (accepted (·.code == 200) (s.answerAt 1))
  | .connection => error? (h.arranged (listenAddress s) (s.answerAt 2))
  | .verb => error? (accepted Reply.isPreliminary (s.answerAt 3))
  | .transfer =>
    match h.arranged (listenAddress s) (s.answerAt 2) with
    | .ok a => error? (h.worker direction a false).result
    | .error _ => none
  | .completion => error? (accepted Reply.isCompletion (s.answerAt 4))
  | .naming target =>
    match s.answerAt 3, s.answerAt 4 with
    | .ok first, .ok last =>
      if (target.fileName? first last).isNone then
        some (.command (.malformed ("no file name in \"" ++ first.summary ++ "\"")))
      else none
    | _, _ => none

/-- The data connection is to be made there. -/
inductive Arranges (h : Handling) (s : Script) : Arranged → Prop
  | passive {r : Reply} {e : Endpoint} (hside : h.options.side = .passive)
      (hanswer : s.answerAt 2 = .ok r) (hcode : r.code = 227)
      (hparse : HostPort.parse r.text = .ok e) : Arranges h s ⟨.passive, .v4 e⟩
  | active {r : Reply} {e : Endpoint} (hside : h.options.side = .active)
      (hlisten : h.listen (listenAddress s) = .ok (.v4 e)) (hanswer : s.answerAt 2 = .ok r)
      (hcode : r.code = 200) : Arranges h s ⟨.active, .v4 e⟩

/-- All goes well: these are the two replies to the verb, and this comes of the transfer. -/
structure Succeeds (h : Handling) (direction : Direction) (s : Script) (first last : Reply)
    (outcome : Outcome) : Prop where
  representation : ∃ r, s.answerAt 0 = .ok r ∧ r.code = 200
  mode : ∃ r, s.answerAt 1 = .ok r ∧ r.code = 200
  transfer : ∃ a, h.Arranges s a ∧ (h.worker direction a false).result = .ok outcome
  first_eq : s.answerAt 3 = .ok first
  preliminary : first.class? = some .preliminary
  last_eq : s.answerAt 4 = .ok last
  completion : last.class? = some .completion
  not_cancelled : outcome.cancelled = false

end Handling

/-! ## Answers -/

section

variable {accepts : Reply → Bool} {answer : Except ExchangeError Reply} {r : Reply}

theorem accepted_eq_ok_iff :
    accepted accepts answer = .ok r ↔ answer = .ok r ∧ accepts r = true := by
  unfold accepted
  cases answer with
  | error e => simp
  | ok r' =>
    by_cases haccepts : accepts r' = true
    · simp only [haccepts, if_true, Except.ok.injEq]
      refine ⟨fun h => ⟨h, h ▸ haccepts⟩, fun h => h.1⟩
    · simp only [haccepts, Bool.false_eq_true, if_false, Except.ok.injEq, reduceCtorEq, false_iff]
      rintro ⟨rfl, h⟩
      exact haccepts h

theorem accepted_code {code : ℕ} (answer : Except ExchangeError Reply) :
    accepted (·.code == code) answer = (answer.bind (·.expect [code])).mapError .command := by
  cases answer with
  | error e => rfl
  | ok r =>
    by_cases hcode : r.code = code <;>
      simp [accepted, Except.bind, Reply.expect, hcode, Except.mapError]

theorem accepted_class {c : Reply.Class} (answer : Except ExchangeError Reply) :
    accepted (fun r => r.class? == some c) answer =
      (answer.bind (·.expectClass c)).mapError .command := by
  cases answer with
  | error e => rfl
  | ok r =>
    by_cases hclass : r.class? = some c <;>
      simp [accepted, Except.bind, Reply.expectClass, hclass, Except.mapError]

theorem mapError_eq_ok_iff {ε δ α : Type} {x : Except ε α} {f : ε → δ} {a : α} :
    x.mapError f = .ok a ↔ x = .ok a := by
  cases x <;> simp [Except.mapError]

theorem negotiate_bind {α β : Type} (x : Exchange Script α) (f : α → Exchange Script β)
    (s : Script) : Handling.negotiate (x >>= f) s =
      match Handling.negotiate x s with
      | (.ok a, s) => Handling.negotiate (f a) s
      | (.error e, s) => (.error e, s) := by
  rw [Handling.negotiate, Handling.negotiate, Exchange.bind_apply]
  rcases x s with ⟨e | a, s⟩ <;> rfl

theorem negotiate_tell (verb : String) (args : Option String) (code : ℕ) (s : Script) :
    Handling.negotiate (Control.tell verb args [code]) s =
      ((accepted (·.code == code) s.answer).map fun _ => (), s.after [⟨verb, args⟩]) := by
  rw [Handling.negotiate, Script.tell_apply, accepted_code]
  cases s.answer.bind (·.expect [code]) <;> rfl

theorem negotiate_pasv (s : Script) :
    Handling.negotiate Control.pasv s =
      ((accepted (·.code == 227) s.answer).bind fun reply =>
        (HostPort.parse reply.text).mapError .command, s.after [⟨"PASV", none⟩]) := by
  rw [Handling.negotiate, Control.pasv, Exchange.bind_apply, Script.ask_apply, accepted_code]
  cases s.answer.bind (·.expect [227]) with
  | error e => rfl
  | ok reply =>
    simp only [Exchange.ofExcept_apply, Except.mapError, Except.bind]
    cases HostPort.parse reply.text <;> rfl

end

/-! ## What is left of the steps -/

section

variable {α β : Type} {x : Except Error α} {f : α → Except Error β} {stage : Stage}
  {rest : List Stage} {failure? : Stage → Option Error}

/-- A step that fails hides all that follow, and one that does not leaves it to them. -/
theorem error?_bind (hstage : failure? stage = error? x)
    (hrest : ∀ a, x = .ok a → error? (f a) = rest.findSome? failure?) :
    error? (x >>= f) = (stage :: rest).findSome? failure? := by
  rw [List.findSome?_cons, hstage]
  cases x with
  | error e => rfl
  | ok a => exact hrest a rfl

theorem error?_map (g : α → β) : error? (x.map g) = error? x := by
  cases x <;> rfl

theorem eq_error_iff {e : Error} : x = .error e ↔ error? x = some e := by
  cases x <;> simp [error?]

end

namespace Handling

/-! ## Before the verb -/

theorem arranged_eq_ok_iff {h : Handling} {s : Script} {a : Arranged} :
    h.arranged (listenAddress s) (s.answerAt 2) = .ok a ↔ h.Arranges s a := by
  constructor
  · intro harranged
    cases hside : h.options.side with
    | passive =>
      simp only [arranged, hside] at harranged
      obtain ⟨r, hr, hrest⟩ := Filter.bind_eq_ok_iff.mp harranged
      obtain ⟨e, he, hlast⟩ := Filter.bind_eq_ok_iff.mp hrest
      obtain ⟨hanswer, hcode⟩ := accepted_eq_ok_iff.mp hr
      obtain rfl := Except.ok.inj hlast
      exact .passive hside hanswer (beq_iff_eq.mp hcode) (mapError_eq_ok_iff.mp he)
    | active =>
      simp only [arranged, hside] at harranged
      obtain ⟨address, haddress, hrest⟩ := Filter.bind_eq_ok_iff.mp harranged
      obtain ⟨arg, harg, hrest⟩ := Filter.bind_eq_ok_iff.mp hrest
      obtain ⟨r, hr, hlast⟩ := Filter.bind_eq_ok_iff.mp hrest
      obtain ⟨hanswer, hcode⟩ := accepted_eq_ok_iff.mp hr
      obtain rfl := Except.ok.inj hlast
      cases address with
      | v4 e =>
        exact .active hside (mapError_eq_ok_iff.mp haddress) hanswer (beq_iff_eq.mp hcode)
      | v6 ip port scope => simp [HostPort.encode?, Except.mapError] at harg
  · rintro (⟨hside, hanswer, hcode, hparse⟩ | ⟨hside, hlisten, hanswer, hcode⟩)
    · simp [arranged, hside, hanswer, accepted, hcode, hparse, Except.mapError, bind, Except.bind,
        pure, Except.pure]
    · simp [arranged, hside, hlisten, hanswer, accepted, hcode, HostPort.encode?, Except.mapError,
        bind, Except.bind, pure, Except.pure]

theorem result_arrange (h : Handling) (s : Script) :
    (h.arrange s).1 = h.arranged (listenAddress s) s.answer := by
  cases hside : h.options.side with
  | passive =>
    simp only [arrange, arranged, hside, negotiate_pasv]
    cases accepted (·.code == 227) s.answer with
    | error e => rfl
    | ok reply =>
      simp only [Except.bind, bind]
      cases HostPort.parse reply.text <;> rfl
  | active =>
    simp only [arrange, arranged, hside]
    cases h.listen (listenAddress s) with
    | error fault => rfl
    | ok a =>
      cases a with
      | v4 e =>
        have hport : negotiate (Control.port (.v4 e)) s =
            ((accepted (·.code == 200) s.answer).map fun _ => (),
              s.after [⟨"PORT", some (HostPort.encode e)⟩]) := negotiate_tell ..
        simp only [hport]
        cases accepted (·.code == 200) s.answer <;> rfl
      | v6 ip port scope => rfl

theorem result_prepare (h : Handling) (s : Script) :
    (h.prepare s).1 = (do
      let _ ← accepted (·.code == 200) (s.answerAt 0)
      let _ ← accepted (·.code == 200) (s.answerAt 1)
      h.arranged (listenAddress s) (s.answerAt 2)) := by
  have hfirst : s.answer = s.answerAt 0 := by simpa using s.answer_after []
  rw [prepare, setTerms, negotiate_bind, Control.setRepresentation, negotiate_tell, hfirst]
  cases accepted (·.code == 200) (s.answerAt 0) with
  | error e => rfl
  | ok r =>
    simp only [Except.map]
    rw [Control.setMode, negotiate_tell, ← Script.after_append, Script.answer_after]
    cases accepted (·.code == 200) (s.answerAt 1) with
    | error e => rfl
    | ok r =>
      have harrange := h.result_arrange (s.after
        ([⟨"TYPE", some h.options.settings.representation.code⟩] ++
          [⟨"MODE", some h.options.settings.mode.code⟩]))
      rw [Script.answer_after] at harrange
      exact harrange

/-- If it succeeds, the negotiation takes three answers. -/
theorem prepare_eq_ok {h : Handling} {s : Script} {a : Arranged} (ha : (h.prepare s).1 = .ok a) :
    ∃ sent, sent.length = 3 ∧ h.prepare s = (.ok a, s.after sent) := by
  obtain ⟨result, hprepare, hok, -⟩ := h.prepare_cases s
  obtain rfl : result = .ok a := by simpa [hprepare] using ha
  obtain ⟨hagreed, hsome⟩ := Bool.and_eq_true_iff.mp hok.symm
  obtain ⟨q, hq⟩ := Option.isSome_iff_exists.mp hsome
  refine ⟨_, ?_, hprepare⟩
  rw [Control.Inquiry.said_of_agreed hagreed, List.length_map, length_negotiation_of_some hq]

/-! ## From the verb on -/

theorem conclude_eq {result : Except Error Outcome} (first : Reply)
    (last : Except ExchangeError Reply)
    (hcalm : ∀ outcome, result = .ok outcome → outcome.cancelled = false) :
    conclude first result last = do
      let outcome ← result
      let last ← accepted Reply.isCompletion last
      return ⟨first, outcome, last⟩ := by
  have hclass : accepted Reply.isCompletion last =
      (last.bind (·.expectClass .completion)).mapError .command := accepted_class last
  cases result with
  | error e => rfl
  | ok outcome =>
    simp only [conclude, hclass, bind, Except.bind, hcalm outcome rfl]
    cases last with
    | error e => rfl
    | ok last => cases last.expectClass .completion <;> rfl

theorem worker_not_cancelled {h : Handling} (hcalm : h.Undisturbed) {direction : Direction}
    {a : Arranged} {outcome : Outcome}
    (hresult : (h.worker direction a false).result = .ok outcome) :
    outcome.cancelled = false := by
  have hplan : Plan.Undisturbed
      ⟨h.options.settings, a.side, direction, h.codec, h.source, h.sink, h.watch⟩ :=
    ⟨⟨hcalm.sink, hcalm.watch⟩, hcalm.source⟩
  simp only [worker, wanted, Course.report, Bool.false_eq_true, if_false] at hresult
  cases hbreakdown : h.breakdown with
  | none =>
    rw [hbreakdown] at hresult
    exact Plan.cancelled_eq_of_undisturbed hplan (hcalm.opening a) hresult
  | some b => simp [hbreakdown, Report.brokenDown] at hresult

/-- From the verb on, two answers and the transfer decide. -/
def exchanged (h : Handling) (direction : Direction) (s : Script) (a : Arranged) :
    Except Error Exchanged := do
  let first ← accepted Reply.isPreliminary (s.answerAt 3)
  let outcome ← (h.worker direction a false).result
  let last ← accepted Reply.isCompletion (s.answerAt 4)
  return ⟨first, outcome, last⟩

theorem result_exchange {h : Handling} (hcalm : h.Undisturbed) (direction : Direction)
    (verb : Command) (a : Arranged) {s : Script} {sent : List Command} (hsent : sent.length = 3) :
    (exchange verb (.spawn (h.worker direction a)) (s.after sent)).1.result =
      h.exchanged direction s a := by
  have hverb : Control.request verb (s.after sent) = (s.answerAt 3, s.after (sent ++ [verb])) := by
    rw [Script.request_apply, Script.answer_after, hsent, Script.after_append]
  have hlast : (s.after (sent ++ [verb])).answer = s.answerAt 4 := by
    rw [Script.answer_after, List.length_append, hsent]
    rfl
  cases hanswer : s.answerAt 3 with
  | error e =>
    rw [hanswer] at hverb
    simp only [exchange, exchanged, hverb, hanswer]
    rfl
  | ok first =>
    rw [hanswer] at hverb
    cases hpreliminary : first.isPreliminary with
    | false =>
      simp [exchange, exchanged, hverb, hanswer, accepted, hpreliminary, bind, Except.bind]
    | true =>
      simp only [exchange, exchanged, hverb, hanswer, hpreliminary, if_true, Script.read_apply,
        hlast, accepted]
      exact conclude_eq first _ fun _ hresult => worker_not_cancelled hcalm hresult

/-- The result is that of the steps, one after the other. -/
theorem result_move {h : Handling} (hcalm : h.Undisturbed) (direction : Direction) (verb : Command)
    (s : Script) :
    (h.move direction verb s).1.result = (do
      let _ ← accepted (·.code == 200) (s.answerAt 0)
      let _ ← accepted (·.code == 200) (s.answerAt 1)
      let a ← h.arranged (listenAddress s) (s.answerAt 2)
      h.exchanged direction s a) := by
  have hmove : (h.move direction verb s).1.result =
      (h.prepare s).1 >>= h.exchanged direction s := by
    cases ha : (h.prepare s).1 with
    | error e =>
      have hprepare : h.prepare s = (.error e, (h.prepare s).2) := by rw [← ha]
      rw [move, hprepare]
      cases e <;> rfl
    | ok a =>
      obtain ⟨sent, hlength, hprepare⟩ := prepare_eq_ok ha
      rw [move, hprepare]
      exact result_exchange hcalm direction verb a hlength
  rw [hmove, result_prepare]
  cases accepted (·.code == 200) (s.answerAt 0) with
  | error e => rfl
  | ok _ => cases accepted (·.code == 200) (s.answerAt 1) <;> rfl

/-! ## The first failure -/

theorem error?_result_move {h : Handling} (hcalm : h.Undisturbed) (direction : Direction)
    (verb : Command) (s : Script) :
    error? (h.move direction verb s).1.result =
      Stage.retrieving.findSome? (h.failure? direction s) := by
  rw [result_move hcalm]
  refine error?_bind rfl fun _ _ => error?_bind rfl fun _ _ => error?_bind rfl fun a ha => ?_
  refine error?_bind rfl fun first _ => error?_bind ?_ fun outcome _ => ?_
  · simp only [failure?, ha]
  · exact error?_bind rfl fun _ _ => rfl

theorem result_move_eq_ok_iff {h : Handling} (hcalm : h.Undisturbed) {direction : Direction}
    {verb : Command} {s : Script} {x : Exchanged} :
    (h.move direction verb s).1.result = .ok x ↔
      h.Succeeds direction s x.first x.last x.outcome := by
  rw [result_move hcalm]
  constructor
  · intro hresult
    obtain ⟨r, hr, hrest⟩ := Filter.bind_eq_ok_iff.mp hresult
    obtain ⟨r', hr', hrest⟩ := Filter.bind_eq_ok_iff.mp hrest
    obtain ⟨a, ha, hrest⟩ := Filter.bind_eq_ok_iff.mp hrest
    obtain ⟨first, hfirst, hrest⟩ := Filter.bind_eq_ok_iff.mp hrest
    obtain ⟨outcome, houtcome, hrest⟩ := Filter.bind_eq_ok_iff.mp hrest
    obtain ⟨last, hlast, hx⟩ := Filter.bind_eq_ok_iff.mp hrest
    obtain rfl := Except.ok.inj hx
    obtain ⟨hr, hcode⟩ := accepted_eq_ok_iff.mp hr
    obtain ⟨hr', hcode'⟩ := accepted_eq_ok_iff.mp hr'
    obtain ⟨hfirst, hpreliminary⟩ := accepted_eq_ok_iff.mp hfirst
    obtain ⟨hlast, hcompletion⟩ := accepted_eq_ok_iff.mp hlast
    exact ⟨⟨r, hr, beq_iff_eq.mp hcode⟩, ⟨r', hr', beq_iff_eq.mp hcode'⟩,
      ⟨a, arranged_eq_ok_iff.mp ha, houtcome⟩, hfirst, beq_iff_eq.mp hpreliminary, hlast,
      beq_iff_eq.mp hcompletion, worker_not_cancelled hcalm houtcome⟩
  · rintro ⟨⟨r, hr, hcode⟩, ⟨r', hr', hcode'⟩, ⟨a, ha, houtcome⟩, hfirst, hpreliminary, hlast,
      hcompletion, -⟩
    refine Filter.bind_eq_ok_iff.mpr ⟨r, accepted_eq_ok_iff.mpr ⟨hr, beq_iff_eq.mpr hcode⟩, ?_⟩
    refine Filter.bind_eq_ok_iff.mpr ⟨r', accepted_eq_ok_iff.mpr ⟨hr', beq_iff_eq.mpr hcode'⟩, ?_⟩
    refine Filter.bind_eq_ok_iff.mpr ⟨a, arranged_eq_ok_iff.mpr ha, ?_⟩
    refine Filter.bind_eq_ok_iff.mpr ⟨x.first,
      accepted_eq_ok_iff.mpr ⟨hfirst, beq_iff_eq.mpr hpreliminary⟩, ?_⟩
    refine Filter.bind_eq_ok_iff.mpr ⟨x.outcome, houtcome, ?_⟩
    exact Filter.bind_eq_ok_iff.mpr ⟨x.last,
      accepted_eq_ok_iff.mpr ⟨hlast, beq_iff_eq.mpr hcompletion⟩, rfl⟩

/-! ## The name -/

theorem fileName_eq (target : Target) (x : Exchanged) :
    fileName target x = match target.fileName? x.first x.last with
      | some file => .ok ⟨file, x.outcome⟩
      | none =>
        .error (.command (.malformed ("no file name in \"" ++ x.first.summary ++ "\""))) := by
  have hname : target.fileName? x.first x.last =
      (FileName.ofText? x.first.text).or ((FileName.ofText? x.last.text).or target.name?) := by
    simp only [Target.fileName?, Target.fileNames, List.findSome?_cons, List.findSome?_nil, id]
    cases FileName.ofText? x.first.text <;> cases FileName.ofText? x.last.text <;>
      cases target.name? <;> rfl
  rw [hname]
  unfold fileName
  cases (FileName.ofText? x.first.text).or ((FileName.ofText? x.last.text).or target.name?) <;> rfl

theorem fileName_eq_ok_iff {target : Target} {x : Exchanged} {stored : Stored} :
    fileName target x = .ok stored ↔
      target.fileName? x.first x.last = some stored.file ∧ x.outcome = stored.outcome := by
  rw [fileName_eq]
  obtain ⟨file, outcome⟩ := stored
  cases target.fileName? x.first x.last <;> simp

theorem error?_fileName {h : Handling} {direction : Direction} {s : Script} (target : Target)
    {x : Exchanged} (hsucceeds : h.Succeeds direction s x.first x.last x.outcome) :
    error? (fileName target x) = h.failure? direction s (.naming target) := by
  simp only [failure?, hsucceeds.first_eq, hsucceeds.last_eq]
  rw [fileName_eq]
  cases target.fileName? x.first x.last <;> rfl

theorem error?_result_store {h : Handling} (hcalm : h.Undisturbed) (target : Target) (s : Script) :
    error? (h.store target s).1.result =
      (Stage.storing target).findSome? (h.failure? .upload s) := by
  have hmove := error?_result_move hcalm .upload target.command s
  have hstore : (h.store target s).1.result =
      (h.move .upload target.command s).1.result.bind (fileName target) := rfl
  rw [hstore, Stage.storing, List.findSome?_append, ← hmove]
  cases hresult : (h.move .upload target.command s).1.result with
  | error e => rfl
  | ok x =>
    have hname := error?_fileName target ((result_move_eq_ok_iff hcalm).mp hresult)
    simp only [Except.bind, error?, Option.none_or, List.findSome?_cons, List.findSome?_nil]
    rw [← hname]
    cases fileName target x <;> rfl

/-- A document is stored or retrieved exactly if every step goes well, and comes to what the
transfer has come to.  Otherwise the error is that of the first step that fails, whatever becomes of
the others. -/
theorem decided_in_order (h : Handling) (hcalm : h.Undisturbed) (s : Script) :
    (∀ target : Target,
      (∀ stored, (h.store target s).1.result = .ok stored ↔
        ∃ first last, h.Succeeds .upload s first last stored.outcome ∧
          target.fileName? first last = some stored.file) ∧
      ∀ e, (h.store target s).1.result = .error e ↔
        (Stage.storing target).findSome? (h.failure? .upload s) = some e) ∧
    ∀ path : String,
      (∀ outcome, (h.retrieve path s).1.result = .ok outcome ↔
        ∃ first last, h.Succeeds .download s first last outcome) ∧
      ∀ e, (h.retrieve path s).1.result = .error e ↔
        Stage.retrieving.findSome? (h.failure? .download s) = some e := by
  refine ⟨fun target => ⟨fun stored => ?_, fun e => ?_⟩,
    fun path => ⟨fun outcome => ?_, fun e => ?_⟩⟩
  · have hstore : (h.store target s).1.result =
        (h.move .upload target.command s).1.result >>= fileName target := rfl
    rw [hstore, Filter.bind_eq_ok_iff]
    constructor
    · rintro ⟨x, hresult, hname⟩
      obtain ⟨hname, houtcome⟩ := fileName_eq_ok_iff.mp hname
      exact ⟨x.first, x.last, houtcome ▸ (result_move_eq_ok_iff hcalm).mp hresult, hname⟩
    · rintro ⟨first, last, hsucceeds, hname⟩
      exact ⟨⟨first, stored.outcome, last⟩, (result_move_eq_ok_iff hcalm).mpr hsucceeds,
        fileName_eq_ok_iff.mpr ⟨hname, rfl⟩⟩
  · rw [eq_error_iff, error?_result_store hcalm]
  · have hretrieve : (h.retrieve path s).1.result =
        (h.move .download (retrieval path) s).1.result.map Exchanged.outcome := rfl
    rw [hretrieve]
    constructor
    · intro hresult
      cases hmoved : (h.move .download (retrieval path) s).1.result with
      | error e => simp [hmoved, Except.map] at hresult
      | ok x =>
        obtain rfl : x.outcome = outcome := by simpa [hmoved, Except.map] using hresult
        exact ⟨x.first, x.last, (result_move_eq_ok_iff hcalm).mp hmoved⟩
    · rintro ⟨first, last, hsucceeds⟩
      have hmoved : (h.move .download (retrieval path) s).1.result = .ok ⟨first, outcome, last⟩ :=
        (result_move_eq_ok_iff hcalm).mpr hsucceeds
      rw [hmoved]
      rfl
  · have hretrieve : (h.retrieve path s).1.result =
        (h.move .download (retrieval path) s).1.result.map Exchanged.outcome := rfl
    rw [hretrieve, eq_error_iff, error?_map, error?_result_move hcalm]

/-- The server connects to a listener and takes all that it is sent. -/
def depositing (source : Source) : Handling where
  options := ⟨.default, .active⟩
  codec := zlib
  listen _ := .ok (.v4 ⟨.loopback, 2000⟩)
  opening a := .turn (.now a.address)
  source := source
  sink := .ready
  watch _ := false

theorem undisturbed_depositing {source : Source} (h : ∀ turn ∈ source, turn.Undisturbed) :
    (depositing source).Undisturbed :=
  ⟨fun _ => rfl, h, ⟨fun _ => rfl, rfl, rfl⟩, fun _ => rfl⟩

/-- A server that names the file at once. -/
def naming (last : Reply) : Script where
  answers := [.ok ⟨200, "OK"⟩, .ok ⟨200, "OK"⟩, .ok ⟨200, "OK"⟩,
    .ok ⟨150, "FILE: /tmp/doc7.ps (opening)."⟩, .ok last]
  acts := []
  localAddress? := none

/-- A source that breaks off counts before the reply that says so. -/
theorem decided_in_order_depositing :
    let whole := depositing [.now [97, 98]]
    let broken := depositing [.now [97, 98], .completes (.error .reset) false]
    (whole.Undisturbed ∧ (whole.store .temporary (naming ⟨226, "Done"⟩)).1.result =
        .ok ⟨"/tmp/doc7.ps", ⟨2, false⟩⟩) ∧
      broken.Undisturbed ∧ (broken.store .temporary (naming ⟨426, "Aborted"⟩)).1.result =
        .error (.truncated 2 .reset) := by
  intro whole broken
  have hwhole : whole.Undisturbed := undisturbed_depositing (by simp [Turn.Undisturbed, Turn.now])
  have hbroken : broken.Undisturbed := undisturbed_depositing (by simp [Turn.Undisturbed, Turn.now])
  obtain ⟨hstored, -⟩ := (decided_in_order _ hwhole (naming ⟨226, "Done"⟩)).1 .temporary
  obtain ⟨-, hfailed⟩ := (decided_in_order _ hbroken (naming ⟨426, "Aborted"⟩)).1 .temporary
  have hsucceeds : whole.Succeeds .upload (naming ⟨226, "Done"⟩)
      ⟨150, "FILE: /tmp/doc7.ps (opening)."⟩ ⟨226, "Done"⟩ ⟨2, false⟩ := by
    refine ⟨⟨_, rfl, rfl⟩, ⟨_, rfl, rfl⟩, ⟨_, .active rfl rfl rfl rfl, ?_⟩, rfl, rfl, rfl, rfl, rfl⟩
    decide +kernel
  refine ⟨⟨hwhole, (hstored _).mpr ⟨_, _, hsucceeds, ?_⟩⟩, hbroken, (hfailed _).mpr ?_⟩
  · decide +kernel
  · decide +kernel

end Handling

end FaxClient.Transfer
