import FaxClient.Proofs.Filter.Emission
import FaxClient.Proofs.Transfer.Carriage

/-!
# What stops a transfer

Payload is moved until an operation fails, the filter has a fault, the sink is shut down, or the
transfer is cancelled.  Which of these it was can be told from the operation that was begun last and
from what the other sides have in store for it: if that operation does not fail, if the filter has
no fault in the data that it delivered, and if it is not the last of all, then nothing but a
cancellation has kept the next from being begun.

To see this, a transfer is compared with what is in store for it at every moment in which no
operation is in progress: as many reads were begun as turns of the source are gone, the filter is in
the state that the blocks read have brought it to, and the sink has taken octets in every write
call.
-/

namespace FaxClient

theorem Filter.pushAll_snoc (f : Filter) {s s' : f.State} {chunks outs : List Octets}
    (h : f.pushAll s chunks = .ok (outs, s')) (chunk : Octets) :
    f.pushAll s (chunks ++ [chunk]) =
      (f.push s' chunk).map fun (out, s'') => (outs ++ [out], s'') := by
  induction chunks generalizing s outs with
  | nil =>
    obtain ⟨rfl, rfl⟩ : [] = outs ∧ s = s' := by simpa [pushAll] using h
    cases hpush : f.push s chunk <;>
      simp [pushAll, hpush, bind, Except.bind, pure, Except.pure, Except.map]
  | cons first chunks ih =>
    obtain ⟨out, t, rest, hpush, hall, rfl⟩ := pushAll_cons_eq_ok_iff.mp h
    rw [List.cons_append, pushAll, hpush]
    cases hlast : f.push s' chunk <;>
      simp [ih hall, hlast, bind, Except.bind, pure, Except.pure, Except.map]

namespace Transfer

/-! ## What was begun -/

namespace Journal

/-- The operations that were begun, in order. -/
def begun (j : Journal) : List Operation :=
  j.filterMap fun
    | .began operation => some operation
    | _ => none

/-- How often the sink took octets. -/
def takes (j : Journal) : ℕ :=
  j.countP fun
    | .took _ => true
    | _ => false

@[simp] theorem begun_append (j k : Journal) : (j ++ k).begun = j.begun ++ k.begun := by
  simp [begun]

@[simp] theorem takes_append (j k : Journal) : (j ++ k).takes = j.takes + k.takes := by
  simp [takes]

@[simp] theorem begun_nil : begun [] = [] := rfl

@[simp] theorem takes_nil : takes [] = 0 := rfl

@[simp] theorem begun_cons (e : Entry) (j : Journal) : begun (e :: j) =
    match e with
    | .began operation => operation :: j.begun
    | _ => j.begun := by
  cases e <;> rfl

@[simp] theorem takes_cons (e : Entry) (j : Journal) : takes (e :: j) =
    match e with
    | .took _ => j.takes + 1
    | _ => j.takes := by
  cases e <;> simp [takes]

@[simp] theorem blocks_began (operation : Operation) : blocks [.began operation] = [] := rfl

@[simp] theorem moves_began (operation : Operation) : moves [.began operation] = [] := rfl

end Journal

@[simp] theorem State.journal_note (s : State) (e : Entry) :
    (s.note e).journal = s.journal ++ [e] := by
  simp [journal, note]

@[simp] theorem State.calls_note (s : State) (e : Entry) : (s.note e).calls = s.calls := rfl

/-- Two states in which the same was begun, read and written. -/
structure State.Matches (s t : State) : Prop where
  begun_eq : t.journal.begun = s.journal.begun
  blocks_eq : t.journal.blocks = s.journal.blocks
  moves_eq : t.journal.moves = s.journal.moves
  takes_eq : t.journal.takes = s.journal.takes
  calls_eq : t.calls = s.calls

namespace State

variable {s t u : State}

theorem Matches.refl (s : State) : s.Matches s := ⟨rfl, rfl, rfl, rfl, rfl⟩

theorem Matches.trans (h : s.Matches t) (h' : t.Matches u) : s.Matches u :=
  ⟨h'.begun_eq.trans h.begun_eq, h'.blocks_eq.trans h.blocks_eq, h'.moves_eq.trans h.moves_eq,
    h'.takes_eq.trans h.takes_eq, h'.calls_eq.trans h.calls_eq⟩

theorem matches_note (s : State) {e : Entry} (hidle : e.IsIdle)
    (hbegan : ∀ operation, e ≠ .began operation) : s.Matches (s.note e) := by
  have hjournal := Journal.idle_singleton hidle
  refine ⟨?_, by simp [hjournal.blocks_eq], by simp [hjournal.moves_eq], ?_, rfl⟩
  · cases e <;> first | exact absurd rfl (hbegan _) | simp
  · cases e <;> first | exact hidle.elim | simp

theorem matches_cancel (s : State) : s.Matches s.cancel := by
  have hmatches : s.Matches (s.note .cancelled) := s.matches_note trivial (by simp)
  exact ⟨hmatches.begun_eq, hmatches.blocks_eq, hmatches.moves_eq, hmatches.takes_eq, rfl⟩

theorem matches_cancelIf (s : State) (cancels : Bool) : s.Matches (s.cancelIf cancels) := by
  cases cancels with
  | false => exact .refl s
  | true => exact s.matches_cancel

theorem matches_emit (s : State) (watch : Watch) (e : Event) : s.Matches (s.emit watch e) :=
  (s.matches_note (e := .announced e) trivial (by simp)).trans (matches_cancelIf _ _)

end State

theorem Job.matches_advance (job : Job) (n : ℕ) (s : State) : s.Matches (job.advance n s) := by
  cases hdue : (s.progress.advance n).2 with
  | false =>
    have hpast : (job.advance n s).journal = s.journal := by simp [advance, hdue, State.journal]
    have hcalls : (job.advance n s).calls = s.calls := by simp [advance, hdue]
    constructor <;> simp [hpast, hcalls]
  | true =>
    have hemit := State.matches_emit { s with progress := (s.progress.advance n).1 } job.watch
      (.transfer ⟨.progress, (s.progress.advance n).1.total⟩)
    have heq : job.advance n s = { State.emit { s with progress := (s.progress.advance n).1 }
        job.watch (.transfer ⟨.progress, (s.progress.advance n).1.total⟩) with
      moved := (s.progress.advance n).1.total } := by
      simp [advance, hdue]
    rw [heq]
    exact ⟨hemit.begun_eq, hemit.blocks_eq, hemit.moves_eq, hemit.takes_eq, hemit.calls_eq⟩

/-! ## What is in store for it -/

def Turn.fault? {α : Type} : Turn α → Option Fault
  | .completes (.error fault) _ => some fault
  | .completes (.ok _) _ | .stalls => none

/-- The fault of a write call; one that takes nothing is a fault too. -/
def Turn.refusal? : Turn (Option ℕ) → Option Fault
  | .completes (.error fault) _ => some fault
  | .completes (.ok (some 0)) _ => some .wroteNothing
  | .completes (.ok _) _ | .stalls => none

namespace Plan

/-- The fault that the filter has in the blocks of a source, or, if the source has ended, in what is
left of them. -/
def filterFault? (p : Plan) (ended : Bool) (blocks : List Octets) : Option Fault :=
  match p.job.filter.pushAll p.job.filter.start blocks with
  | .error fault => some fault
  | .ok (_, f) =>
    match ended, p.job.filter.finish f with
    | true, .error fault => some fault
    | _, _ => none

/-- The fault of the operation that was begun last, or of the filter in the data that it
delivered. -/
def fault? (p : Plan) (j : Journal) : Option Fault :=
  match j.begun.getLast? with
  | some .read =>
    match p.source.getD (j.begun.count .read - 1) (.now []) with
    | .completes (.error fault) _ => some fault
    | .completes (.ok block) _ => p.filterFault? block.isEmpty j.blocks
    | .stalls => none
  | some .write =>
    -- Once what was to be written is written out whole, no write call is in progress.
    if j.moves.length = j.begun.count .write then none
    else (p.sink.write (j.takes + 1)).refusal?
  | some .flush => p.sink.flush.fault?
  | some .shutdown => p.sink.shutdown.fault?
  | some .connect | none => none

/-- The operation that was begun last is the shutdown of the sink, and it completes. -/
def Ends (p : Plan) (j : Journal) : Prop :=
  j.begun.getLast? = some .shutdown ∧ ∃ cancels, p.sink.shutdown = .completes (.ok ()) cancels

/-- Nothing but a cancellation can keep the next operation from being begun. -/
structure Clear (p : Plan) (j : Journal) : Prop where
  fault?_eq : p.fault? j = none
  not_ends : ¬ p.Ends j

/-- How moving payload ends is what becomes of the operation that was begun last. -/
def Accounts (p : Plan) (x : Ending × State) : Prop :=
  match x.1 with
  | .complete => p.fault? x.2.journal = none ∧ p.Ends x.2.journal
  | .cancelled => p.Clear x.2.journal
  | .failed fault => p.fault? x.2.journal = some fault

/-- No operation is in progress, and a transfer is where it should be by what is in store for it:
this is left of the source, and this is the state of the filter. -/
structure Abreast (p : Plan) (source : Source) (f : p.job.filter.State) (s : State) : Prop where
  source_eq : source = p.source.drop (s.journal.begun.count .read)
  filter_eq : ∃ outs, p.job.filter.pushAll p.job.filter.start s.journal.blocks = .ok (outs, f)
  calls_eq : s.calls = s.journal.takes
  moves_eq : s.journal.moves.length = s.journal.begun.count .write
  clear : p.Clear s.journal

section

variable {p : Plan} {s t : State} {source : Source} {f : p.job.filter.State}

theorem fault?_of_matches (h : s.Matches t) : p.fault? t.journal = p.fault? s.journal := by
  simp only [fault?, h.begun_eq, h.blocks_eq, h.moves_eq, h.takes_eq]

theorem ends_of_matches (h : s.Matches t) : p.Ends t.journal ↔ p.Ends s.journal := by
  simp only [Ends, h.begun_eq]

theorem Clear.of_matches (hclear : p.Clear s.journal) (h : s.Matches t) : p.Clear t.journal :=
  ⟨(fault?_of_matches h).trans hclear.fault?_eq, fun hends =>
    hclear.not_ends ((ends_of_matches h).mp hends)⟩

theorem Abreast.of_matches (habreast : p.Abreast source f s) (h : s.Matches t) :
    p.Abreast source f t where
  source_eq := by rw [h.begun_eq]; exact habreast.source_eq
  filter_eq := by rw [h.blocks_eq]; exact habreast.filter_eq
  calls_eq := by rw [h.calls_eq, h.takes_eq]; exact habreast.calls_eq
  moves_eq := by rw [h.begun_eq, h.moves_eq]; exact habreast.moves_eq
  clear := habreast.clear.of_matches h

/-! ## One operation -/

theorem accounts_failed {fault : Fault} (h : p.fault? s.journal = some fault)
    (hmatches : s.Matches t) : p.Accounts (.failed fault, t) :=
  (fault?_of_matches hmatches).trans h

theorem accounts_cancelled (h : p.Clear s.journal) (hmatches : s.Matches t) :
    p.Accounts (.cancelled, t) :=
  h.of_matches hmatches

theorem Accounts.of_matches {ending : Ending} (h : p.Accounts (ending, s))
    (hmatches : s.Matches t) : p.Accounts (ending, t) := by
  cases ending with
  | complete => exact ⟨(fault?_of_matches hmatches).trans h.1, (ends_of_matches hmatches).mpr h.2⟩
  | cancelled => exact accounts_cancelled h hmatches
  | failed fault => exact accounts_failed h hmatches

/-- An operation is accounted for by its turn. -/
theorem accounts_await {α : Type} {operation : Operation} {turn : Turn α}
    {next : α → State → Ending × State} (hclear : p.Clear s.journal)
    (hstalls : turn = .stalls → p.Clear (s.note (.began operation)).journal)
    (hfails : ∀ fault, turn.fault? = some fault →
      p.fault? (s.note (.began operation)).journal = some fault)
    (hnext : ∀ a t, (∃ cancels, turn = .completes (.ok a) cancels) →
      (s.note (.began operation)).Matches t → p.Accounts (next a t)) :
    p.Accounts (Job.await operation turn s next) := by
  unfold Job.await
  split
  · exact hclear
  · cases turn with
    | stalls => exact accounts_cancelled (hstalls rfl) (State.matches_cancel _)
    | completes result cancels =>
      cases result with
      | error fault => exact accounts_failed (hfails fault rfl) (State.matches_cancelIf _ cancels)
      | ok a => exact hnext a _ ⟨cancels, rfl⟩ (State.matches_cancelIf _ cancels)

/-! ## Writing -/

/-- Write calls are in progress. -/
structure Writing (s : State) : Prop where
  begun_eq : s.journal.begun.getLast? = some .write
  moves_ne : s.journal.moves.length ≠ s.journal.begun.count .write
  calls_eq : s.calls = s.journal.takes

theorem Writing.fault?_eq (h : Writing s) (p : Plan) :
    p.fault? s.journal = (p.sink.write (s.calls + 1)).refusal? := by
  simp [fault?, h.begun_eq, h.moves_ne, h.calls_eq]

theorem not_ends_of_last {j : Journal} {operation : Operation}
    (h : j.begun.getLast? = some operation) (hne : operation ≠ .shutdown) : ¬ p.Ends j := by
  rintro ⟨hlast, -⟩
  rw [h, Option.some.injEq] at hlast
  exact hne hlast

/-- Right after what was to be written was written out whole. -/
theorem clear_of_moved {j : Journal} (hlast : j.begun.getLast? = some .write)
    (hmoves : j.moves.length = j.begun.count .write) : p.Clear j :=
  ⟨by simp [fault?, hlast, hmoves], not_ends_of_last hlast (by simp)⟩

/-- What write calls leave as it is, and that the sink took octets in all of them. -/
structure Wrote (s t : State) : Prop where
  begun_eq : t.journal.begun = s.journal.begun
  blocks_eq : t.journal.blocks = s.journal.blocks
  moves_eq : t.journal.moves = s.journal.moves
  calls_eq : t.calls = t.journal.takes

theorem Writing.wrote (h : Writing s) (octets : Octets) (cancels : Bool) :
    Wrote s (({ s with calls := s.calls + 1 }.note (.took octets)).cancelIf cancels) := by
  have hmatches :=
    ({ s with calls := s.calls + 1 }.note (.took octets)).matches_cancelIf cancels
  have hjournal : ({ s with calls := s.calls + 1 }.note (.took octets)).journal =
      s.journal ++ [.took octets] := s.journal_note (.took octets)
  refine ⟨hmatches.begun_eq.trans ?_, hmatches.blocks_eq.trans ?_, hmatches.moves_eq.trans ?_,
    hmatches.calls_eq.trans (Eq.trans ?_ hmatches.takes_eq.symm)⟩
  · simp [hjournal, Journal.begun]
  · simp [hjournal]
  · simp [hjournal]
  · rw [hjournal, Journal.takes_append, ← h.calls_eq]
    rfl

theorem Wrote.trans {u : State} (h : Wrote s t) (h' : Wrote t u) : Wrote s u :=
  ⟨h'.begun_eq.trans h.begun_eq, h'.blocks_eq.trans h.blocks_eq, h'.moves_eq.trans h.moves_eq,
    h'.calls_eq⟩

theorem Writing.of_wrote (h : Writing s) (hwrote : Wrote s t) : Writing t :=
  ⟨hwrote.begun_eq ▸ h.begun_eq, hwrote.begun_eq ▸ hwrote.moves_eq ▸ h.moves_ne,
    hwrote.calls_eq⟩

theorem accounts_writeCalls (p : Plan) (octets : Octets) (h : Writing s) :
    (∃ t, Job.writeCalls p.sink octets s = (.complete, t) ∧ Wrote s t) ∨
      (Job.writeCalls p.sink octets s).1 ≠ .complete ∧
        p.Accounts (Job.writeCalls p.sink octets s) := by
  fun_induction Job.writeCalls p.sink octets s with
  | case1 s => exact .inl ⟨s, rfl, rfl, rfl, rfl, h.calls_eq⟩
  | case2 s b rest s' hturn =>
    have hclear : p.Clear s'.journal :=
      ⟨(h.fault?_eq p).trans (congrArg Turn.refusal? hturn),
        not_ends_of_last h.begun_eq (by simp)⟩
    exact .inr ⟨by simp, accounts_cancelled hclear s'.matches_cancel⟩
  | case3 s b rest s' fault cancels hturn =>
    have hfault : p.fault? s'.journal = some fault :=
      (h.fault?_eq p).trans (congrArg Turn.refusal? hturn)
    exact .inr ⟨by simp, accounts_failed hfault (s'.matches_cancelIf cancels)⟩
  | case4 s b rest s' cancels hturn =>
    have hfault : p.fault? s'.journal = some .wroteNothing :=
      (h.fault?_eq p).trans (congrArg Turn.refusal? hturn)
    exact .inr ⟨by simp, accounts_failed hfault (s'.matches_cancelIf cancels)⟩
  | case5 s b rest s' k cancels hturn ih =>
    have hwrote := h.wrote (b :: rest.take k) cancels
    refine (ih (h.of_wrote hwrote)).imp_left ?_
    rintro ⟨t, heq, hrest⟩
    exact ⟨t, heq, hwrote.trans hrest⟩
  | case6 s b rest s' cancels hturn => exact .inl ⟨_, rfl, h.wrote (b :: rest) cancels⟩

theorem Abreast.write (h : p.Abreast source f s) (block out : Octets) :
    (∃ t, p.job.write block out s = (.complete, t) ∧ p.Abreast source f t) ∨
      (p.job.write block out s).1 ≠ .complete ∧ p.Accounts (p.job.write block out s) := by
  by_cases hs : s.cancelled
  · have heq : p.job.write block out s = (.cancelled, s) := by simp [Job.write, hs]
    rw [heq]
    exact .inr ⟨by simp, h.clear⟩
  · have hwriting : Writing (s.note (.began .write)) :=
      ⟨by simp, by simp [h.moves_eq], by simpa using h.calls_eq⟩
    rcases hcalls : Job.writeCalls p.sink out (s.note (.began .write)) with ⟨ending, t⟩
    have haccounts := accounts_writeCalls p out hwriting
    rw [hcalls] at haccounts
    rcases haccounts with ⟨t', heq, hwrote⟩ | ⟨hending, haccounts⟩
    · obtain ⟨rfl, rfl⟩ := Prod.mk.inj heq
      have hbegun : t.journal.begun = s.journal.begun ++ [.write] := by simp [hwrote.begun_eq]
      have hmoves : t.journal.moves = s.journal.moves := by simp [hwrote.moves_eq]
      have hblocks : t.journal.blocks = s.journal.blocks := by simp [hwrote.blocks_eq]
      let moved := t.note (.moved block out)
      have hbegun' : moved.journal.begun = s.journal.begun ++ [.write] := by simp [moved, hbegun]
      have hlast : moved.journal.begun.getLast? = some .write := by rw [hbegun']; simp
      have hmoves' : moved.journal.moves.length = moved.journal.begun.count .write := by
        simp [moved, hbegun, hmoves, h.moves_eq]
      refine .inl ⟨moved, by simp [moved, Job.write, hs, job, hcalls], ?_, ?_, ?_, hmoves',
        clear_of_moved hlast hmoves'⟩
      · rw [hbegun']
        simpa using h.source_eq
      · simpa [moved, hblocks] using h.filter_eq
      · simpa [moved] using hwrote.calls_eq
    · have heq : p.job.write block out s = (ending, t) := by
        cases ending with
        | complete => exact absurd rfl hending
        | cancelled => simp [Job.write, hs, job, hcalls]
        | failed fault => simp [Job.write, hs, job, hcalls]
      rw [heq]
      exact .inr ⟨hending, haccounts⟩

/-! ## Ending the sink -/

theorem fault?_of_flush {j : Journal} (h : j.begun.getLast? = some .flush) :
    p.fault? j = p.sink.flush.fault? := by
  simp [fault?, h]

theorem fault?_of_shutdown {j : Journal} (h : j.begun.getLast? = some .shutdown) :
    p.fault? j = p.sink.shutdown.fault? := by
  simp [fault?, h]

theorem accounts_shutdown (h : p.Clear s.journal) :
    p.Accounts (Job.await .shutdown p.sink.shutdown s fun _ s => (.complete, s.note .shut)) := by
  have hlast : (s.note (.began .shutdown)).journal.begun.getLast? = some .shutdown := by simp
  refine accounts_await h ?_ ?_ ?_
  · intro hturn
    refine ⟨by rw [fault?_of_shutdown hlast, hturn]; rfl, ?_⟩
    rintro ⟨-, cancels, hends⟩
    rw [hturn] at hends
    cases hends
  · intro fault hfault
    rw [fault?_of_shutdown hlast, hfault]
  · rintro a t ⟨cancels, hturn⟩ ht
    have hshut : (s.note (.began .shutdown)).Matches (t.note .shut) :=
      ht.trans (t.matches_note trivial (by simp))
    constructor
    · rw [fault?_of_matches hshut, fault?_of_shutdown hlast, hturn]
      rfl
    · exact (ends_of_matches hshut).mpr ⟨hlast, cancels, hturn⟩

theorem accounts_endSink (h : p.Clear s.journal) : p.Accounts (p.job.endSink s) := by
  have hlast : (s.note (.began .flush)).journal.begun.getLast? = some .flush := by simp
  have hclear (hfault : p.sink.flush.fault? = none) : p.Clear (s.note (.began .flush)).journal :=
    ⟨(fault?_of_flush hlast).trans hfault, not_ends_of_last hlast (by simp)⟩
  refine accounts_await h ?_ ?_ ?_
  · intro hturn
    have hturn' : p.sink.flush = .stalls := hturn
    exact hclear (by rw [hturn']; rfl)
  · intro fault hfault
    exact (fault?_of_flush hlast).trans hfault
  · rintro a t ⟨cancels, hturn⟩ ht
    have hturn' : p.sink.flush = .completes (.ok a) cancels := hturn
    refine accounts_shutdown ((hclear ?_).of_matches (ht.trans (t.matches_note trivial (by simp))))
    rw [hturn']
    rfl

/-! ## Reading -/

/-- A read that was begun has the next turn of the source. -/
theorem fault?_of_read (h : p.Abreast source f s)
    (ht : t.journal.begun = s.journal.begun ++ [.read]) :
    p.fault? t.journal =
      match source.getD 0 (.now []) with
      | .completes (.error fault) _ => some fault
      | .completes (.ok block) _ => p.filterFault? block.isEmpty t.journal.blocks
      | .stalls => none := by
  have hlast : t.journal.begun.getLast? = some .read := by rw [ht]; simp
  have hturn : p.source.getD (t.journal.begun.count .read - 1) (.now []) =
      source.getD 0 (.now []) := by
    rw [ht, h.source_eq]
    simp [List.getD_eq_getElem?_getD, List.getElem?_drop]
  simp only [fault?, hlast, hturn]

theorem not_ends_of_read (ht : t.journal.begun = s.journal.begun ++ [.read]) :
    ¬ p.Ends t.journal := by
  have hlast : t.journal.begun.getLast? = some .read := by rw [ht]; simp
  exact not_ends_of_last hlast (by simp)

/-- A read is over, and the filter has no fault in what it delivered. -/
theorem Abreast.after_read (h : p.Abreast source f s) {f' : p.job.filter.State}
    (hbegun : t.journal.begun = s.journal.begun ++ [.read])
    (hmoves : t.journal.moves = s.journal.moves) (hcalls : t.calls = t.journal.takes)
    (hfilter : ∃ outs, p.job.filter.pushAll p.job.filter.start t.journal.blocks = .ok (outs, f'))
    (hfault : p.fault? t.journal = none) : p.Abreast source.tail f' t where
  source_eq := by
    rw [h.source_eq, hbegun, List.tail_drop]
    simp
  filter_eq := hfilter
  calls_eq := hcalls
  moves_eq := by simp [hbegun, hmoves, h.moves_eq]
  clear := ⟨hfault, not_ends_of_read hbegun⟩

theorem accounts_finish (h : p.Abreast source f s) {cancels : Bool}
    (hturn : source.getD 0 (.now []) = .completes (.ok []) cancels)
    (ht : (s.note (.began .read)).Matches t) : p.Accounts (p.job.finish f t) := by
  have hbegun : t.journal.begun = s.journal.begun ++ [.read] := by simp [ht.begun_eq]
  have hblocks : t.journal.blocks = s.journal.blocks := by simp [ht.blocks_eq]
  obtain ⟨outs, hfilter⟩ := h.filter_eq
  have hread : p.fault? t.journal = p.filterFault? true s.journal.blocks := by
    rw [fault?_of_read h hbegun, hturn, hblocks]
    rfl
  cases hfinish : p.job.filter.finish f with
  | error fault =>
    have heq : p.job.finish f t = (.failed fault, t) := by simp [Job.finish, hfinish]
    rw [heq]
    refine accounts_failed (hread.trans ?_) (.refl t)
    simp [filterFault?, hfilter, hfinish]
  | ok finished =>
    obtain ⟨out, f'⟩ := finished
    have hcalls : t.calls = t.journal.takes := by
      rw [ht.calls_eq, ht.takes_eq]
      simpa using h.calls_eq
    have habreast : p.Abreast source.tail f t :=
      h.after_read hbegun (by simp [ht.moves_eq]) hcalls ⟨outs, hblocks ▸ hfilter⟩
        (hread.trans (by simp [filterFault?, hfilter, hfinish]))
    rcases habreast.write [] out with ⟨u, hwrite, hu⟩ | ⟨hending, haccounts⟩
    · cases hdirection : p.job.direction with
      | upload =>
        have heq : p.job.finish f t = p.job.endSink u := by
          simp [Job.finish, hfinish, hwrite, hdirection]
        rw [heq]
        exact accounts_endSink hu.clear
      | download =>
        have heq : p.job.finish f t = p.job.endSink (p.job.advance out.length u) := by
          simp [Job.finish, hfinish, hwrite, hdirection]
        rw [heq]
        exact accounts_endSink (hu.clear.of_matches (p.job.matches_advance out.length u))
    · have heq : p.job.finish f t = p.job.write [] out t := by
        rw [Job.finish, hfinish]
        dsimp only
        split
        · next u hwrite => exact absurd (congrArg Prod.fst hwrite) hending
        · rfl
      rw [heq]
      exact haccounts

theorem accounts_carry (h : p.Abreast source f s) {block : Octets} {cancels : Bool}
    (hturn : source.getD 0 (.now []) = .completes (.ok block) cancels)
    (ht : (s.note (.began .read)).Matches t)
    (ih : ∀ f' u, p.Abreast source.tail f' u → p.Accounts (p.job.pump source.tail f' u)) :
    p.Accounts (p.job.carry source.tail f block t) := by
  cases hblock : block.isEmpty with
  | true =>
    rw [Job.carry, if_pos hblock]
    exact accounts_finish h (List.isEmpty_iff.mp hblock ▸ hturn) ht
  | false =>
    let read := t.note (.read block)
    have hbegun : read.journal.begun = s.journal.begun ++ [.read] := by simp [read, ht.begun_eq]
    have hblocks : read.journal.blocks = s.journal.blocks ++ [block] := by
      simp [read, ht.blocks_eq]
    have hcalls : read.calls = read.journal.takes := by
      simpa [read, ht.calls_eq, ht.takes_eq] using h.calls_eq
    obtain ⟨outs, hfilter⟩ := h.filter_eq
    have hpushed := p.job.filter.pushAll_snoc hfilter block
    have hread : p.fault? read.journal = p.filterFault? false (s.journal.blocks ++ [block]) := by
      rw [fault?_of_read h hbegun, hturn, hblocks]
      simp [hblock]
    cases hpush : p.job.filter.push f block with
    | error fault =>
      have heq : p.job.carry source.tail f block t = (.failed fault, read) := by
        simp [Job.carry, hblock, hpush, read]
      rw [heq]
      refine accounts_failed (hread.trans ?_) (.refl read)
      rw [hpush] at hpushed
      simp [filterFault?, hpushed, Except.map]
    | ok pushed =>
      obtain ⟨out, f'⟩ := pushed
      rw [hpush] at hpushed
      have habreast : p.Abreast source.tail f' read :=
        h.after_read hbegun (by simp [read, ht.moves_eq]) hcalls ⟨_, hblocks ▸ hpushed⟩
          (hread.trans (by simp [filterFault?, hpushed, Except.map]))
      rcases habreast.write block out with ⟨u, hwrite, hu⟩ | ⟨hending, haccounts⟩
      · have heq : p.job.carry source.tail f block t = p.job.pump source.tail f'
            (p.job.advance (p.job.direction.payload (block, out)) u) := by
          simp [Job.carry, hblock, hpush, read, hwrite]
        rw [heq]
        exact ih f' _ (hu.of_matches (p.job.matches_advance _ u))
      · have heq : p.job.carry source.tail f block t = p.job.write block out read := by
          rw [Job.carry, hblock]
          simp only [Bool.false_eq_true, if_false, hpush]
          split
          · next u hwrite => exact absurd (congrArg Prod.fst hwrite) hending
          · rfl
        rw [heq]
        exact haccounts

theorem Abreast.accounts_read (h : p.Abreast source f s) {next : Octets → State → Ending × State}
    (hnext : ∀ block t cancels, source.getD 0 (.now []) = .completes (.ok block) cancels →
      (s.note (.began .read)).Matches t → p.Accounts (next block t)) :
    p.Accounts (Job.await .read (source.getD 0 (.now [])) s next) := by
  have hbegun : (s.note (.began .read)).journal.begun = s.journal.begun ++ [.read] := by simp
  have hfault := fault?_of_read h hbegun
  refine accounts_await h.clear ?_ ?_ ?_
  · intro hturn
    rw [hturn] at hfault
    exact ⟨hfault, not_ends_of_read hbegun⟩
  · intro fault hfails
    rw [hfault]
    cases hturn : source.getD 0 (.now []) with
    | stalls =>
      rw [hturn] at hfails
      simp [Turn.fault?] at hfails
    | completes result cancels =>
      rw [hturn] at hfails
      cases result with
      | error fault' => exact hfails
      | ok block => simp [Turn.fault?] at hfails
  · rintro block t ⟨cancels, hturn⟩ ht
    exact hnext block t cancels hturn ht

/-- However moving payload ends, it is accounted for by the operation that was begun last. -/
theorem accounts_pump (p : Plan) (source : Source) (f : p.job.filter.State) (s : State)
    (h : p.Abreast source f s) : p.Accounts (p.job.pump source f s) := by
  induction source generalizing f s with
  | nil =>
    rw [Job.pump]
    refine h.accounts_read ?_
    rintro block t cancels - ht
    exact accounts_finish h rfl ht
  | cons turn rest ih =>
    rw [Job.pump_cons]
    refine h.accounts_read ?_
    intro block t cancels hturn ht
    exact accounts_carry h hturn ht ih

end

end Plan

end Transfer

end FaxClient
