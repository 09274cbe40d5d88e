import FaxClient.Proofs.Transfer.Cancellation

/-!
# How the progress of a transfer is spaced

A transfer counts its payload in portions, one for each block that was written out whole, and
announces progress at the milestones of these portions and nowhere else.  So progress is announced
no more often than whole blocks were moved, and exactly as often if no portion is larger than a
block, as in an upload, which counts what it reads.
-/

namespace FaxClient

/-- The total that an event announces as progress. -/
def Event.progress? : Event → Option ℕ
  | .transfer ⟨.progress, total⟩ => some total
  | _ => none

namespace Transfer

/-- The totals that were announced as progress. -/
def Report.totals (r : Report) : List ℕ := r.events.filterMap Event.progress?

theorem filterMap_openedEvents (peer : Address) (totals : List ℕ) (last : ℕ) :
    (openedEvents peer totals last).filterMap Event.progress? = totals := by
  have hprogress : (totals.map progressEvent).filterMap Event.progress? = totals := by
    rw [List.filterMap_map]
    exact List.filterMap_some
  rw [openedEvents, List.filterMap_append, List.filterMap_append, hprogress]
  exact List.append_nil totals

/-! ## Counting in portions -/

/-- Counts payload that comes in portions. -/
def Job.advanceAll (job : Job) (portions : List ℕ) (s : State) : State :=
  portions.foldl (fun s n => job.advance n s) s

/-- After some first events, progress was announced at the milestones of the portions that were
counted. -/
structure State.Spaced (first : List Event) (portions : List ℕ) (s : State) : Prop where
  told_eq : s.told = first ++ (Progress.milestones 0 portions).map progressEvent
  total_eq : s.progress.total = portions.sum
  sound : s.progress.Sound

namespace State.Spaced

variable {first : List Event} {portions : List ℕ} {s t : State}

theorem of_eq (h : s.Spaced first portions) (htold : t.told = s.told)
    (hprogress : t.progress = s.progress) : t.Spaced first portions :=
  ⟨htold.trans h.told_eq, hprogress ▸ h.total_eq, hprogress ▸ h.sound⟩

theorem of_zero (s : State) (h : s.progress = .zero) : s.Spaced s.told [] where
  told_eq := by simp
  total_eq := by simp [h, Progress.zero]
  sound := h ▸ Progress.sound_zero

/-- Before anything is counted, what is announced is one more of the first events. -/
theorem emit (h : s.Spaced first []) (watch : Watch) (e : Event) :
    (s.emit watch e).Spaced (first ++ [e]) [] where
  told_eq := by simp [h.told_eq]
  total_eq := by simpa using h.total_eq
  sound := by simpa using h.sound

theorem pending_eq (h : s.Spaced first portions) :
    s.progress.pending = portions.sum % blockSize := by
  rw [h.sound, h.total_eq]

/-- Counting a portion announces its total if the number of whole blocks grows, and nothing
otherwise. -/
theorem told_advance (h : s.Spaced first portions) (job : Job) (n : ℕ) :
    (job.advance n s).told = s.told ++
      if portions.sum / blockSize < (portions.sum + n) / blockSize then
        [progressEvent (portions.sum + n)]
      else [] := by
  have hdue := h.sound.due_iff n
  rw [h.total_eq] at hdue
  rw [Job.told_advance, h.total_eq]
  simp only [hdue]

theorem advance (h : s.Spaced first portions) (job : Job) (n : ℕ) :
    (job.advance n s).Spaced first (portions ++ [n]) where
  told_eq := by
    have hlast : Progress.milestones 0 (portions ++ [n]) = Progress.milestones 0 portions ++
        if portions.sum / blockSize < (portions.sum + n) / blockSize then [portions.sum + n]
        else [] := by
      rw [Progress.milestones_append, Nat.zero_add, Progress.milestones_cons,
        Progress.milestones_nil, List.append_nil]
    rw [h.told_advance job n, h.told_eq, hlast, List.map_append, List.append_assoc]
    split <;> rfl
  total_eq := by
    calc (job.advance n s).progress.total
      _ = portions.sum + n := by rw [Job.progress_advance, Progress.total_advance, h.total_eq]
      _ = (portions ++ [n]).sum := by rw [List.sum_append, List.sum_singleton]
  sound := by
    rw [Job.progress_advance]
    exact h.sound.advance n

theorem advanceAll (h : s.Spaced first portions) (job : Job) (later : List ℕ) :
    (job.advanceAll later s).Spaced first (portions ++ later) := by
  induction later generalizing portions s with
  | nil => simpa [Job.advanceAll] using h
  | cons n later ih =>
    have hlater := ih (h.advance job n)
    rwa [List.append_assoc, List.singleton_append] at hlater

/-- A portion of nothing may as well not have been counted. -/
theorem concat_zero (h : s.Spaced first portions) : s.Spaced first (portions ++ [0]) where
  told_eq := by
    rw [Progress.milestones_append]
    simpa [Progress.milestones_cons] using h.told_eq
  total_eq := by simpa using h.total_eq
  sound := h.sound

end State.Spaced

/-! ## Moving payload -/

/-- The portions in which a transfer counts the payload of what was written out whole. -/
def Direction.portions (direction : Direction) (j : Journal) : List ℕ :=
  j.moves.map direction.payload

theorem Direction.portions_of_moves {direction : Direction} {j k : Journal}
    (h : j.moves = k.moves) : direction.portions j = direction.portions k := by
  rw [portions, portions, h]

@[simp] theorem Direction.portions_emit (direction : Direction) (s : State) (watch : Watch)
    (e : Event) : direction.portions (s.emit watch e).journal = direction.portions s.journal :=
  portions_of_moves (s.matches_emit watch e).moves_eq

theorem Entry.moves_of_ne {e : Entry} (h : ∀ block out, e ≠ .moved block out) :
    Journal.moves [e] = [] := by
  cases e with
  | moved block out => exact absurd rfl (h block out)
  | began operation => rfl
  | read block => rfl
  | took octets => rfl
  | flushed => rfl
  | shut => rfl
  | announced event => rfl
  | cancelled => rfl

/-- Progress was announced for all that was written out whole, but for the block that is still to be
counted. -/
theorem Job.balances_spaced (job : Job) (first : List Event) :
    job.Balances (fun s => s.Spaced first (job.direction.portions s.journal)) fun move s =>
      ∃ earlier, s.journal.moves = earlier ++ [move] ∧
        s.Spaced first (earlier.map job.direction.payload) where
  note {s e} hdeed he h := by
    have hmoves : (s.note e).journal.moves = s.journal.moves := by
      rw [State.journal_note, Journal.moves_append, Entry.moves_of_ne he, List.append_nil]
    rw [Direction.portions_of_moves hmoves]
    exact h.of_eq (State.told_note_of_silent (Entry.event?_of_isDeed hdeed) s) rfl
  began {s} operation _ h := by
    have hmoves : (s.note (.began operation)).journal.moves = s.journal.moves := by simp
    rw [Direction.portions_of_moves hmoves]
    exact h.of_eq (State.told_note_of_silent rfl s) rfl
  cancel {s} h := by
    rw [Direction.portions_of_moves s.matches_cancel.moves_eq]
    exact h.of_eq (s.told_cancelIf true) rfl
  call h := h.of_eq rfl rfl
  moved {s} block out h :=
    ⟨s.journal.moves, by simp, h.of_eq (State.told_note_of_silent rfl s) rfl⟩
  counted {s} move := by
    rintro ⟨earlier, hmoves, h⟩
    have hcounted := h.advance job (job.direction.payload move)
    have hsame := (job.matches_advance (job.direction.payload move) s).moves_eq
    rw [Direction.portions, hsame, hmoves, List.map_append]
    exact hcounted
  uncounted {s} out hdirection := by
    rintro ⟨earlier, hmoves, h⟩
    have hnothing : job.direction.payload ([], out) = 0 := by rw [hdirection]; rfl
    rw [Direction.portions, hmoves, List.map_append, List.map_singleton, hnothing]
    exact h.concat_zero

/-! ## Reading -/

/-- No read gives more than a block. -/
def Source.Buffered (source : Source) : Prop :=
  ∀ block cancels, .completes (.ok block) cancels ∈ source → block.length ≤ blockSize

theorem Source.Buffered.of_cons {turn : Turn Octets} {rest : Source}
    (h : Source.Buffered (turn :: rest)) : rest.Buffered :=
  fun block cancels hmem => h block cancels (List.mem_cons_of_mem _ hmem)

theorem Source.buffered_ofOctets (octets : Octets) : (Source.ofOctets octets).Buffered := by
  intro block cancels hmem
  obtain ⟨piece, hpiece, heq⟩ := List.mem_map.mp hmem
  obtain ⟨rfl, -⟩ : piece = block ∧ false = cancels := by simpa [Turn.now] using heq
  exact Octets.length_le_of_mem_pieces hpiece

theorem fst_of_mem_remainder {f : Filter} {s : f.State} {move : Octets × Octets}
    (h : move ∈ f.remainder s) : move.1 = [] := by
  unfold Filter.remainder at h
  split at h
  · exact absurd h List.not_mem_nil
  · rw [List.mem_singleton.mp h]

theorem length_le_of_mem_freight {f : Filter} {source : Source} (hsource : source.Buffered)
    {s : f.State} {move : Octets × Octets} (h : move ∈ f.freight source s) :
    move.1.length ≤ blockSize := by
  have hremainder {s : f.State} (h : move ∈ f.remainder s) : move.1.length ≤ blockSize := by
    rw [fst_of_mem_remainder h]
    exact Nat.zero_le _
  fun_induction Filter.freight f source s with
  | case1 s => exact hremainder h
  | case2 block cancels rest s hblock => exact hremainder h
  | case3 block cancels rest s hblock fault hpush => exact absurd h List.not_mem_nil
  | case4 block cancels rest s hblock out s' hpush ih =>
    rcases List.mem_cons.mp h with rfl | h
    · exact hsource block cancels List.mem_cons_self
    · exact ih hsource.of_cons h
  | case5 => exact absurd h List.not_mem_nil

namespace Plan

variable {p : Plan} {opening : Opening} {cancelled : Bool}

theorem mem_freight_of_mem_moves {move : Octets × Octets}
    (h : move ∈ (p.run opening cancelled).journal.moves) : move ∈ p.freight := by
  obtain ⟨-, hidle⟩ | ⟨ending, n, k, l, -, -, hresult, -⟩ := p.run_carries opening cancelled
  · rw [hidle.moves_eq] at h
    exact absurd h List.not_mem_nil
  · have hpayload : payload? (p.run opening cancelled).result = some n := by
      rw [hresult, payload?_result]
    obtain ⟨later, part, hfreight, -⟩ := (settles_of_payload hpayload).moves
    rw [hfreight]
    exact List.mem_append_left later h

/-- An upload counts the blocks that it read. -/
theorem portions_le_of_upload (hdirection : p.direction = .upload) (hsource : p.source.Buffered) :
    ∀ n ∈ p.direction.portions (p.run opening cancelled).journal, n ≤ blockSize := by
  intro n hn
  obtain ⟨move, hmove, rfl⟩ := List.mem_map.mp hn
  rw [hdirection]
  exact length_le_of_mem_freight hsource (mem_freight_of_mem_moves hmove)

/-! ## Whole transfers -/

/-- While there is no connection, nothing is announced or moved. -/
theorem spaced_establish (p : Plan) (opening : Opening) (cancelled : Bool) :
    (p.establish opening (.start cancelled)).2.Spaced [] [] ∧
      p.direction.portions (p.establish opening (.start cancelled)).2.journal = [] := by
  constructor
  · have hstart := State.Spaced.of_zero (.start cancelled) rfl
    obtain ⟨s, htold, hprogress, -, ⟨e, heq, -⟩ | ⟨peer, heq⟩⟩ :=
      p.establish_cases opening (.start cancelled)
    · rw [heq]
      exact hstart.of_eq htold hprogress
    · rw [heq]
      exact hstart.of_eq htold hprogress
  · obtain ⟨k, hk, hwent⟩ := p.establish_waited opening (.start cancelled)
    rw [Direction.portions, hwent.journal_eq, Journal.moves_append, hk.moves_eq]
    rfl

/-- A transfer announces progress at the milestones of the portions in which it counted its
payload. -/
theorem spaced_run (p : Plan) (opening : Opening) (cancelled : Bool) :
    let r := p.run opening cancelled
    (payload? r.result).getD 0 = (p.direction.portions r.journal).sum ∧
      r.totals = Progress.milestones 0 (p.direction.portions r.journal) := by
  intro r
  obtain ⟨hspaced, hnone⟩ := p.spaced_establish opening cancelled
  obtain ⟨s, -, hprogress, hmoved, ⟨e, heq, he⟩ | ⟨peer, heq⟩⟩ :=
    p.establish_cases opening (.start cancelled)
  · rw [heq] at hspaced hnone
    have hrun : r = report (.error e) (p.afterFailing e s) := run_of_error heq
    have hportions : p.direction.portions r.journal = [] := by
      simpa [hrun, report, afterFailing] using hnone
    have hevents : r.events = unopenedEvents e.message := by
      simp [hrun, hspaced.told_eq]
    rw [hportions, Report.totals, hevents, hrun, report, payload?_of_precedesOpening he]
    exact ⟨rfl, rfl⟩
  · rw [heq] at hspaced hnone
    let first : List Event := [.connection (.opened peer), .transfer ⟨.started, 0⟩]
    let ended := p.job.pump p.source p.filter.start (p.afterOpening peer s)
    have hrun : r = report (result ended.1 ended.2.moved) (p.afterClosing peer ended.2) :=
      run_of_ok heq
    have hbegun : (p.afterOpening peer s).Spaced first
        (p.direction.portions (p.afterOpening peer s).journal) := by
      rw [afterOpening, Direction.portions_emit, Direction.portions_emit, hnone]
      exact (hspaced.emit _ _).emit _ _
    have hended : ended.2.Spaced first (p.direction.portions ended.2.journal) :=
      (p.job.balances_spaced first).pump p.source p.filter.start hbegun
    have hcounted : ended.2.moved = ended.2.progress.total :=
      p.moved_pump peer (by rw [hmoved, hprogress]; rfl)
    have hportions : p.direction.portions r.journal = p.direction.portions ended.2.journal := by
      simp [hrun, report, afterClosing]
    have hevents : r.events = openedEvents peer
        (Progress.milestones 0 (p.direction.portions ended.2.journal)) ended.2.moved := by
      simp [hrun, hended.told_eq, openedEvents, first]
    rw [hportions, Report.totals, hevents, filterMap_openedEvents]
    refine ⟨?_, rfl⟩
    rw [hrun, report, payload?_result, Option.getD_some, hcounted]
    exact hended.total_eq

end Plan

/-- However payload is counted, what is pending is the payload past the last whole block, and
progress is announced exactly when the number of whole blocks grows, once with the new total however
many blocks it grows by.  So no transfer announces progress more often than whole blocks were moved,
and it does so exactly as often if it counted no portion larger than a block, as in an upload. -/
theorem progress_spaced :
    (∀ (job : Job) (s : State) (portions : List ℕ) (n : ℕ), s.progress = .zero →
      let t := job.advanceAll portions s
      let total := portions.sum
      t.progress.total = total ∧ t.progress.pending = total % blockSize ∧
        (job.advance n t).told = t.told ++
          if total / blockSize < (total + n) / blockSize then [progressEvent (total + n)] else []) ∧
    ∀ (p : Plan) (opening : Opening) (cancelled : Bool),
      let r := p.run opening cancelled
      let total := (payload? r.result).getD 0
      let portions := p.direction.portions r.journal
      (total = portions.sum ∧ r.totals = Progress.milestones 0 portions) ∧
        r.totals.length ≤ total / blockSize ∧
        ((∀ n ∈ portions, n ≤ blockSize) → r.totals.length = total / blockSize) ∧
        (p.direction = .upload → p.source.Buffered → r.totals.length = total / blockSize) := by
  refine ⟨?_, ?_⟩
  · intro job s portions n hzero t total
    have hspaced : t.Spaced s.told portions := (State.Spaced.of_zero s hzero).advanceAll job portions
    exact ⟨hspaced.total_eq, hspaced.pending_eq, hspaced.told_advance job n⟩
  · intro p opening cancelled r total portions
    obtain ⟨htotal, htotals⟩ : total = portions.sum ∧ r.totals = Progress.milestones 0 portions :=
      p.spaced_run opening cancelled
    have hle := Progress.length_milestones_le 0 portions
    have heq (h : ∀ n ∈ portions, n ≤ blockSize) : r.totals.length = total / blockSize := by
      have hlength := Progress.length_milestones_eq 0 h
      rw [htotals, htotal]
      simpa using hlength
    refine ⟨⟨htotal, htotals⟩, ?_, heq, ?_⟩
    · rw [htotals, htotal]
      simpa using hle
    · intro hdirection hsource
      exact heq (Plan.portions_le_of_upload hdirection hsource)

/-- Octets that are moved as they are, a whole block at a time. -/
def Plan.bulk (direction : Direction) (octets : Octets) : Plan where
  settings := .default
  side := .passive
  direction := direction
  codec := zlib
  source := .ofOctets octets
  sink := .ready
  watch := fun _ => false

/-- A portion of several blocks is announced once; two and a half blocks are announced twice. -/
theorem progress_spaced_bulk :
    let job := (Plan.bulk .upload []).job
    let t := job.advanceAll [1000, 1000, 24, 1024] (.start false)
    let octets : Octets := List.replicate 2560 0
    (t.progress.pending = 1000 ∧ (job.advance 3000 t).told = t.told ++ [progressEvent 6048]) ∧
      ((Plan.bulk .download octets).run Plan.reached false).totals.length = 2 ∧
      ((Plan.bulk .upload octets).run Plan.reached false).totals.length = 2 := by
  intro job t octets
  obtain ⟨hportions, htransfers⟩ := progress_spaced
  obtain ⟨-, hpending, htold⟩ :=
    hportions job (.start false) [1000, 1000, 24, 1024] 3000 rfl
  obtain ⟨-, -, hdownload, -⟩ := htransfers (.bulk .download octets) Plan.reached false
  obtain ⟨-, -, -, hupload⟩ := htransfers (.bulk .upload octets) Plan.reached false
  have hsum : [1000, 1000, 24, 1024].sum = 3048 := rfl
  rw [hsum] at hpending htold
  refine ⟨?_, ?_, ?_⟩
  · simp only [t]
    exact ⟨hpending, htold⟩
  · have htotal : payload? ((Plan.bulk .download octets).run Plan.reached false).result =
        some 2560 := by decide +kernel
    rw [htotal] at hdownload
    exact hdownload (by decide +kernel)
  · have htotal : payload? ((Plan.bulk .upload octets).run Plan.reached false).result =
        some 2560 := by decide +kernel
    rw [htotal] at hupload
    exact hupload rfl (Source.buffered_ofOctets octets)

end Transfer

end FaxClient
