import FaxClient.Proofs.Transfer.Footprint

/-!
# How payload is carried

The course of moving the payload of a source is made of a few kinds of pieces: a wait, a block that
is refused, broken off or moved, and the end.
-/

namespace FaxClient.Transfer

/-! ## What each operation does -/

namespace Job

/-- Waiting for an operation ends the course, or the operation gave something to go on with. -/
theorem await_cases {α : Type} (operation : Operation) (turn : Turn α) (s : State)
    (next : α → State → Ending × State) :
    ∃ t : State, s.Waited t ∧
      ((∃ ending, ending ≠ .complete ∧ await operation turn s next = (ending, t)) ∨
        ∃ a cancels, turn = .completes (.ok a) cancels ∧
          await operation turn s next = next a t) := by
  have hbegan : s.Waited (s.note (.began operation)) := s.waited_note trivial
  by_cases hs : s.cancelled
  · exact ⟨s, .refl s, .inl ⟨.cancelled, by simp, by simp [await, hs]⟩⟩
  · cases turn with
    | stalls =>
      exact ⟨_, hbegan.trans (State.waited_cancel _), .inl ⟨.cancelled, by simp,
        by simp [await, hs]⟩⟩
    | completes result cancels =>
      refine ⟨_, hbegan.trans (State.waited_cancelIf _ cancels), ?_⟩
      cases result with
      | error fault => exact .inl ⟨.failed fault, by simp, by simp [await, hs]⟩
      | ok a => exact .inr ⟨a, cancels, rfl, by simp [await, hs]⟩

theorem writeCalls_cases (sink : Sink) (octets : Octets) (s : State) :
    ∃ k : Journal, s.Went k 0 (writeCalls sink octets s).2 ∧
      k.Takes octets (writeCalls sink octets s).1 := by
  fun_induction writeCalls sink octets s with
  | case1 s => exact ⟨[], .refl s, .nothing⟩
  | case2 s b rest s' hturn =>
    obtain ⟨k, hk, hwent⟩ := s.waited_call.trans s'.waited_cancel
    exact ⟨k, hwent, .stopped hk (by simp) (by simp)⟩
  | case3 s b rest s' fault cancels hturn =>
    obtain ⟨k, hk, hwent⟩ := s.waited_call.trans (s'.waited_cancelIf cancels)
    exact ⟨k, hwent, .stopped hk (by simp) (by simp)⟩
  | case4 s b rest s' cancels hturn =>
    obtain ⟨k, hk, hwent⟩ := s.waited_call.trans (s'.waited_cancelIf cancels)
    exact ⟨k, hwent, .stopped hk (by simp) (by simp)⟩
  | case5 s b rest s' k cancels hturn ih =>
    obtain ⟨j, hblocks, hmoves, hwritten, hwent⟩ := s.took_cancelIf (b :: rest.take k) cancels
    obtain ⟨l, hl, htakes⟩ := ih
    have hall : b :: rest = j.written ++ rest.drop k := by simp [hwritten]
    refine ⟨j ++ l, hwent.trans hl, ?_⟩
    rw [hall]
    exact htakes.after hblocks hmoves
  | case6 s b rest s' cancels hturn =>
    obtain ⟨j, hblocks, hmoves, hwritten, hwent⟩ := s.took_cancelIf (b :: rest) cancels
    refine ⟨j, hwent, ?_⟩
    simpa [hwritten] using Journal.Takes.nothing.after hblocks hmoves

/-- What a block became is written out whole, or it is not and the course ends. -/
theorem write_cases (job : Job) (block out : Octets) (s : State) :
    ∃ (k : Journal) (t : State), s.Went k 0 t ∧
      ((k.Writes block out ∧ job.write block out s = (.complete, t)) ∨
        ∃ ending, ending ≠ .complete ∧ k.Breaks out ∧ job.write block out s = (ending, t)) := by
  by_cases hs : s.cancelled
  · exact ⟨[], s, .refl s, .inr ⟨.cancelled, by simp, Journal.Idle.nil.breaks out,
      by simp [write, hs]⟩⟩
  · obtain ⟨k, hk, hbegan⟩ := s.waited_note (e := .began .write) trivial
    obtain ⟨l, hl, htakes⟩ := writeCalls_cases job.sink out (s.note (.began .write))
    cases hcalls : writeCalls job.sink out (s.note (.began .write)) with
    | mk ending t =>
      rw [hcalls] at hl htakes
      have hwent : s.Went (k ++ l) 0 t := hbegan.trans hl
      cases ending with
      | complete =>
        exact ⟨k ++ l ++ [.moved block out], t.note (.moved block out),
          hwent.trans (t.went_note _), .inl ⟨htakes.writes hk, by simp [write, hs, hcalls]⟩⟩
      | cancelled =>
        exact ⟨k ++ l, t, hwent, .inr ⟨.cancelled, by simp, htakes.breaks hk (by simp),
          by simp [write, hs, hcalls]⟩⟩
      | failed fault =>
        exact ⟨k ++ l, t, hwent, .inr ⟨.failed fault, by simp, htakes.breaks hk (by simp),
          by simp [write, hs, hcalls]⟩⟩

theorem advance_went (job : Job) (n : Nat) (s : State) :
    ∃ k : Journal, k.Idle ∧ s.Went k n (job.advance n s) := by
  have htotal : (job.advance n s).progress.total = s.progress.total + n := by simp
  cases hdue : (s.progress.advance n).2 with
  | false =>
    refine ⟨[], .nil, ?_, htotal⟩
    simp [advance, hdue, State.journal]
  | true =>
    obtain ⟨k, hk, hwent⟩ := State.waited_emit { s with progress := (s.progress.advance n).1 }
      job.watch (.transfer ⟨.progress, (s.progress.advance n).1.total⟩)
    refine ⟨k, hk, ?_, htotal⟩
    simpa [advance, hdue, State.journal] using hwent.journal_eq

/-- A sink is ended without anything being moved; in the end it was flushed and shut down. -/
theorem endSink_cases (job : Job) (s : State) :
    ∃ (k : Journal) (t : State), k.Idle ∧ s.Went k 0 t ∧
      ((k.flushed ∧ k.shut ∧ job.endSink s = (.complete, t)) ∨
        ∃ ending, ending ≠ .complete ∧ job.endSink s = (ending, t)) := by
  obtain ⟨t, ⟨k, hk, hwent⟩, ⟨ending, hending, heq⟩ | ⟨a, cancels, -, heq⟩⟩ :=
    await_cases .flush job.sink.flush s fun _ s =>
      await .shutdown job.sink.shutdown (s.note .flushed) fun _ s => (.complete, s.note .shut)
  · exact ⟨k, t, hk, hwent, .inr ⟨ending, hending, heq⟩⟩
  · obtain ⟨u, ⟨l, hl, hwent'⟩, ⟨ending, hending, heq'⟩ | ⟨a', cancels', -, heq'⟩⟩ :=
      await_cases .shutdown job.sink.shutdown (t.note .flushed) fun _ s => (.complete, s.note .shut)
    · have hflushed := Journal.idle_singleton (e := .flushed) trivial
      exact ⟨k ++ [.flushed] ++ l, u, (hk.append hflushed).append hl,
        (hwent.trans (t.went_note _)).trans hwent', .inr ⟨ending, hending, heq.trans heq'⟩⟩
    · have hflushed := Journal.idle_singleton (e := .flushed) trivial
      have hshut := Journal.idle_singleton (e := .shut) trivial
      refine ⟨k ++ [.flushed] ++ l ++ [.shut], u.note .shut,
        ((hk.append hflushed).append hl).append hshut,
        ((hwent.trans (t.went_note _)).trans hwent').trans (u.went_note _), .inl ⟨?_, ?_, ?_⟩⟩
      · simp [Journal.flushed]
      · simp [Journal.shut]
      · exact heq.trans heq'

end Job

/-! ## The course of a source -/

namespace Source

/-- Whether reading finds the end of the source at once. -/
def Ended : Source → Prop
  | [] => True
  | turn :: _ => ∃ cancels, turn = .completes (.ok []) cancels

/-- The blocks of a source up to its end; none if a read fails or does not complete before. -/
def blocks? : Source → Option (List Octets)
  | [] => some []
  | .completes (.ok block) _ :: rest =>
    if block.isEmpty then some [] else (blocks? rest).map (block :: ·)
  | _ :: _ => none

end Source

namespace Job

variable {job : Job}

/-- The course of moving the payload of a source: how it ends, what it notes and the payload it
counts. -/
inductive Carries (job : Job) : Source → job.filter.State → Ending → Journal → Nat → Prop
  | stopped {source f ending} {k : Journal} (hk : k.Idle) (hending : ending ≠ .complete) :
      Carries job source f ending k 0
  | waited {source f ending n} {k l : Journal} (hk : k.Idle)
      (h : Carries job source f ending l n) :
      Carries job source f ending (k ++ l) n
  | refused {rest f cancels fault} {block : Octets}
      (hblock : block.isEmpty = false)
      (hpush : job.filter.push f block = .error fault) :
      Carries job (.completes (.ok block) cancels :: rest) f (.failed fault) [.read block] 0
  | broken {rest f cancels out f' ending} {block : Octets} {k : Journal}
      (hblock : block.isEmpty = false)
      (hpush : job.filter.push f block = .ok (out, f')) (hk : k.Breaks out)
      (hending : ending ≠ .complete) :
      Carries job (.completes (.ok block) cancels :: rest) f ending (.read block :: k) 0
  | moved {rest f cancels out f' ending n} {block : Octets} {k l : Journal}
      (hblock : block.isEmpty = false)
      (hpush : job.filter.push f block = .ok (out, f')) (hk : k.Writes block out)
      (h : Carries job rest f' ending l n) :
      Carries job (.completes (.ok block) cancels :: rest) f ending (.read block :: k ++ l)
        (job.direction.payload (block, out) + n)
  | unfinished {source f fault} (hended : Source.Ended source)
      (hfinish : job.filter.finish f = .error fault) :
      Carries job source f (.failed fault) [] 0
  | lastBroken {source f last f' ending} {k : Journal} (hended : Source.Ended source)
      (hfinish : job.filter.finish f = .ok (last, f')) (hk : k.Breaks last)
      (hending : ending ≠ .complete) :
      Carries job source f ending k 0
  | lastMoved {source f last f' ending} {k l : Journal} (hended : Source.Ended source)
      (hfinish : job.filter.finish f = .ok (last, f')) (hk : k.Writes [] last) (hl : l.Idle)
      (hsink : ending = .complete → l.flushed ∧ l.shut) :
      Carries job source f ending (k ++ l) (job.direction.payload ([], last))

theorem finish_of_moved {f f' : job.filter.State} {last : Octets} {s t : State}
    (hfinish : job.filter.finish f = .ok (last, f'))
    (hwrite : job.write [] last s = (.complete, t)) :
    ∃ (k : Journal) (u : State), k.Idle ∧ t.Went k (job.direction.payload ([], last)) u ∧
      job.finish f s = job.endSink u := by
  cases hdirection : job.direction with
  | upload => exact ⟨[], t, .nil, .refl t, by simp [finish, hfinish, hwrite, hdirection]⟩
  | download =>
    obtain ⟨k, hk, hwent⟩ := job.advance_went last.length t
    exact ⟨k, _, hk, hwent, by simp [finish, hfinish, hwrite, hdirection]⟩

theorem finish_carries (source : Source) (hended : source.Ended) (f : job.filter.State)
    (s : State) :
    ∃ k n, s.Went k n (job.finish f s).2 ∧ job.Carries source f (job.finish f s).1 k n := by
  cases hfinish : job.filter.finish f with
  | error fault =>
    have heq : job.finish f s = (.failed fault, s) := by simp [finish, hfinish]
    rw [heq]
    exact ⟨[], 0, .refl s, .unfinished hended hfinish⟩
  | ok finished =>
    obtain ⟨last, f'⟩ := finished
    obtain ⟨k, t, hwent, ⟨hk, hwrite⟩ | ⟨ending, hending, hk, hwrite⟩⟩ := job.write_cases [] last s
    · obtain ⟨l, u, hl, hcounted, heq⟩ := finish_of_moved hfinish hwrite
      obtain ⟨m, v, hm, hwent', hsink⟩ := job.endSink_cases u
      have hall : s.Went (k ++ (l ++ m)) (job.direction.payload ([], last)) v := by
        simpa using hwent.trans (hcounted.trans hwent')
      rcases hsink with ⟨hflushed, hshut, hcomplete⟩ | ⟨ending, hending, hstopped⟩
      · rw [heq, hcomplete]
        refine ⟨_, _, hall, .lastMoved hended hfinish hk (hl.append hm) fun _ => ?_⟩
        simp_all [Journal.flushed, Journal.shut]
      · rw [heq, hstopped]
        refine ⟨_, _, hall, .lastMoved hended hfinish hk (hl.append hm) fun hcomplete => ?_⟩
        exact absurd hcomplete hending
    · have heq : job.finish f s = (ending, t) := by
        cases ending with
        | complete => exact absurd rfl hending
        | cancelled => simp [finish, hfinish, hwrite]
        | failed fault => simp [finish, hfinish, hwrite]
      rw [heq]
      exact ⟨k, 0, hwent, .lastBroken hended hfinish hk hending⟩

/-- What is done with a block that was read. -/
def carry (job : Job) (rest : Source) (f : job.filter.State) (block : Octets) (s : State) :
    Ending × State :=
  if block.isEmpty then job.finish f s
  else
    let s := s.note (.read block)
    match job.filter.push f block with
    | .error fault => (.failed fault, s)
    | .ok (out, f) =>
      match job.write block out s with
      | (.complete, s) => job.pump rest f (job.advance (job.direction.payload (block, out)) s)
      | stopped => stopped

theorem pump_cons (job : Job) (turn : Turn Octets) (rest : Source) (f : job.filter.State)
    (s : State) : job.pump (turn :: rest) f s = await .read turn s (job.carry rest f) := by
  unfold carry
  rw [pump]
  cases job.direction <;> rfl

theorem carry_carries (rest : Source) (f : job.filter.State) (block : Octets) (s : State)
    (cancels : Bool)
    (ih : ∀ f' t, ∃ k n, State.Went t k n (job.pump rest f' t).2 ∧
      job.Carries rest f' (job.pump rest f' t).1 k n) :
    ∃ k n, s.Went k n (job.carry rest f block s).2 ∧
      job.Carries (.completes (.ok block) cancels :: rest) f (job.carry rest f block s).1 k n := by
  by_cases hblock : block.isEmpty
  · rw [carry, if_pos hblock]
    have hended : Source.Ended (.completes (.ok block) cancels :: rest) :=
      ⟨cancels, by rw [List.isEmpty_iff.mp hblock]⟩
    exact finish_carries _ hended f s
  · have hread := s.went_note (.read block)
    rw [Bool.not_eq_true] at hblock
    cases hpush : job.filter.push f block with
    | error fault =>
      have heq : job.carry rest f block s = (.failed fault, s.note (.read block)) := by
        simp [carry, hblock, hpush]
      rw [heq]
      exact ⟨_, 0, hread, .refused hblock hpush⟩
    | ok pushed =>
      obtain ⟨out, f'⟩ := pushed
      obtain ⟨k, t, hwent, ⟨hk, hwrite⟩ | ⟨ending, hending, hk, hwrite⟩⟩ :=
        job.write_cases block out (s.note (.read block))
      · have heq : job.carry rest f block s =
            job.pump rest f' (job.advance (job.direction.payload (block, out)) t) := by
          simp [carry, hblock, hpush, hwrite]
        obtain ⟨l, hl, hcounted⟩ := job.advance_went (job.direction.payload (block, out)) t
        obtain ⟨m, n, hrest, hcarries⟩ := ih f' (job.advance (job.direction.payload (block, out)) t)
        rw [heq]
        refine ⟨_, _, ?_, .moved hblock hpush hk (hcarries.waited hl)⟩
        simpa using hread.trans (hwent.trans (hcounted.trans hrest))
      · have heq : job.carry rest f block s = (ending, t) := by
          cases ending with
          | complete => exact absurd rfl hending
          | cancelled => simp [carry, hblock, hpush, hwrite]
          | failed fault => simp [carry, hblock, hpush, hwrite]
        rw [heq]
        exact ⟨_, _, hread.trans hwent, .broken hblock hpush hk hending⟩

/-- Moving the payload of a source takes one of its courses. -/
theorem pump_carries (job : Job) (source : Source) (f : job.filter.State) (s : State) :
    ∃ k n, s.Went k n (job.pump source f s).2 ∧
      job.Carries source f (job.pump source f s).1 k n := by
  induction source generalizing f s with
  | nil =>
    obtain ⟨t, ⟨k, hk, hwent⟩, ⟨ending, hending, heq⟩ | ⟨a, cancels, -, heq⟩⟩ :=
      await_cases .read (.now ([] : Octets)) s fun _ s => job.finish f s
    · rw [pump, heq]
      exact ⟨k, 0, hwent, .stopped hk hending⟩
    · obtain ⟨l, n, hwent', hcarries⟩ := finish_carries [] trivial f t
      rw [pump, heq]
      exact ⟨k ++ l, 0 + n, hwent.trans hwent', by simpa using hcarries.waited hk⟩
  | cons turn rest ih =>
    obtain ⟨t, ⟨k, hk, hwent⟩, ⟨ending, hending, heq⟩ | ⟨block, cancels, hturn, heq⟩⟩ :=
      await_cases .read turn s (job.carry rest f)
    · rw [pump_cons, heq]
      exact ⟨k, 0, hwent, .stopped hk hending⟩
    · obtain ⟨l, n, hwent', hcarries⟩ := job.carry_carries rest f block t cancels ih
      rw [pump_cons, heq, hturn]
      exact ⟨k ++ l, 0 + n, hwent.trans hwent', by simpa using hcarries.waited hk⟩

end Job

end FaxClient.Transfer
