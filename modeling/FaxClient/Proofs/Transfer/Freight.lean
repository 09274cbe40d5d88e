import FaxClient.Proofs.Filter.Emission
import FaxClient.Proofs.Transfer.Carriage

/-!
# What a course moves

The freight of a source is what it gives, block by block, each with what the filter makes of it.
At every moment of a course the sink has a beginning of what the filter gives for the blocks read.
The blocks that were written out whole are the first of the freight, and the payload counted is
theirs; a course that came to its end moved all of it.
-/

namespace FaxClient

/-- What the filter still holds at the end goes with no block. -/
def Filter.remainder (f : Filter) (s : f.State) : List (Octets × Octets) :=
  match f.finish s with
  | .error _ => []
  | .ok (last, _) => [([], last)]

/-- What a source gives, and what a filter makes of each block, and at the end; nothing comes after
a read that fails or does not complete, or after a block that is refused. -/
def Filter.freight (f : Filter) : Transfer.Source → f.State → List (Octets × Octets)
  | [], s => f.remainder s
  | .completes (.ok block) _ :: rest, s =>
    if block.isEmpty then f.remainder s
    else
      match f.push s block with
      | .error _ => []
      | .ok (out, s) => (block, out) :: f.freight rest s
  | _ :: _, _ => []

namespace Transfer

/-- Octets are a beginning of what comes next, but not all of it, unless that is nothing. -/
def PartOf (part : Octets) (later : List (Octets × Octets)) : Prop :=
  part = [] ∨ ∃ next rest, later = next :: rest ∧ part <+: next.2 ∧ part ≠ next.2

/-- The blocks that were written out whole are the first of the freight, and the sink took what they
became, and perhaps a part of what comes next. -/
def Journal.Begins (j : Journal) (freight : List (Octets × Octets)) : Prop :=
  ∃ later part, freight = j.moves ++ later ∧
    j.written = (j.moves.map Prod.snd).flatten ++ part ∧ PartOf part later

theorem Journal.sum_length_moves (j : Journal) :
    (j.moves.map fun moved => moved.2.length).sum = (j.moves.map Prod.snd).flatten.length := by
  rw [List.length_flatten, List.map_map]
  rfl

theorem Journal.Begins.sum_le {j : Journal} {freight : List (Octets × Octets)}
    (h : j.Begins freight) : (j.moves.map fun moved => moved.2.length).sum ≤ j.written.length := by
  obtain ⟨later, part, -, hwritten, -⟩ := h
  rw [hwritten, List.length_append, j.sum_length_moves]
  exact Nat.le_add_right _ _

namespace Source

variable {source : Source}

theorem blocks?_of_ended (h : source.Ended) : source.blocks? = some [] := by
  cases source with
  | nil => rfl
  | cons turn rest =>
    obtain ⟨cancels, rfl⟩ := h
    rfl

theorem blocks?_cons {block : Octets} (h : block.isEmpty = false) (cancels : Bool) (rest : Source) :
    blocks? (.completes (.ok block) cancels :: rest) = (blocks? rest).map (block :: ·) := by
  rw [blocks?, h]
  rfl

end Source

section Freight

variable {f : Filter} {s s' : f.State} {source : Source} {block out : Octets}

theorem freight_of_ended (h : source.Ended) : f.freight source s = f.remainder s := by
  cases source with
  | nil => rfl
  | cons turn rest =>
    obtain ⟨cancels, rfl⟩ := h
    rfl

theorem freight_cons (hblock : block.isEmpty = false) (hpush : f.push s block = .ok (out, s'))
    (cancels : Bool) (rest : Source) :
    f.freight (.completes (.ok block) cancels :: rest) s = (block, out) :: f.freight rest s' := by
  simp [Filter.freight, hblock, hpush]

theorem remainder_of_ok (h : f.finish s = .ok (out, s')) : f.remainder s = [([], out)] := by
  simp [Filter.remainder, h]

end Freight

namespace Job

variable {job : Job} {source : Source} {f : job.filter.State} {ending : Ending} {k : Journal}
  {n : Nat}

/-! ## What was written at any moment -/

/-- What was written is no more than what the filter gives for the blocks read; what it gives at
the end counts only if the end of the source was read. -/
def Supports (job : Job) (source : Source) (f : job.filter.State) (j : Journal) : Prop :=
  j.written <+: job.filter.emittedFrom f j.blocks ∨
    source.blocks? = some j.blocks ∧
      ∃ outs, job.filter.outputsFrom f j.blocks = .ok outs ∧ j.written <+: outs.flatten

theorem supports_of_idle {j : Journal} (h : j.Idle) : job.Supports source f j :=
  .inl (by simp [h.written_eq])

theorem Supports.of_alike {i j : Journal} (h : job.Supports source f j) (hi : i.Alike j) :
    job.Supports source f i := by
  simpa [Supports, hi.blocks_eq, hi.written_eq] using h

theorem Supports.written_isPrefix {j : Journal} {image : Octets → Octets}
    (h : job.Supports source job.filter.start j) (hfollows : job.filter.Follows image) :
    j.written <+: image j.input := by
  rw [j.input_eq_flatten]
  rcases h with hprefix | ⟨-, outs, houts, hprefix⟩
  · exact hprefix.trans (hfollows.emitted_isPrefix _)
  · have hrun : job.filter.run j.blocks = .ok outs.flatten :=
      (Filter.run_eq_ok_iff _ _ _).mpr ⟨outs, houts, rfl⟩
    rw [← hfollows.run_eq hrun]
    exact hprefix

theorem supports_of_writing (source : Source) {f' : job.filter.State} {block out : Octets}
    (hpush : job.filter.push f block = .ok (out, f')) {j : Journal} (hblocks : j.blocks = [])
    (hwritten : j.written <+: out) : job.Supports source f (.read block :: j) := by
  left
  rw [Journal.blocks_read_cons, hblocks, Filter.emittedFrom_cons_of_ok hpush]
  simpa using hwritten

theorem Supports.after_moved {rest : Source} {f' : job.filter.State} {block out : Octets}
    {cancels : Bool} {i j : Journal} (h : job.Supports rest f' j) (hblock : block.isEmpty = false)
    (hpush : job.filter.push f block = .ok (out, f')) (hi : i.Writes block out) :
    job.Supports (.completes (.ok block) cancels :: rest) f (.read block :: i ++ j) := by
  have hblocks : Journal.blocks (.read block :: i ++ j) = block :: j.blocks := by
    simp [hi.blocks_eq]
  have hwritten : Journal.written (.read block :: i ++ j) = out ++ j.written := by
    simp [hi.written_eq]
  rw [Supports, hblocks, hwritten, Filter.emittedFrom_cons_of_ok hpush,
    List.prefix_append_right_inj]
  refine h.imp_right ?_
  rintro ⟨hwhole, outs, houts, hprefix⟩
  refine ⟨?_, out :: outs, ?_, ?_⟩
  · rw [Source.blocks?_cons hblock, hwhole, Option.map_some]
  · exact Filter.outputsFrom_cons_eq_ok_iff.mpr ⟨out, f', outs, hpush, houts, rfl⟩
  · rw [List.flatten_cons, List.prefix_append_right_inj]
    exact hprefix

theorem supports_of_finishing {f' : job.filter.State} {last : Octets} (hended : source.Ended)
    (hfinish : job.filter.finish f = .ok (last, f')) {j : Journal} (hblocks : j.blocks = [])
    (hwritten : j.written <+: last) : job.Supports source f j := by
  right
  rw [hblocks]
  refine ⟨Source.blocks?_of_ended hended, [last], ?_, by simpa using hwritten⟩
  exact Filter.outputsFrom_nil_eq_ok_iff.mpr ⟨last, f', hfinish, rfl⟩

theorem Carries.supports (h : job.Carries source f ending k n) {j : Journal} (hj : j <+: k) :
    job.Supports source f j := by
  induction h generalizing j with
  | stopped hk hending => exact supports_of_idle (hk.of_isPrefix hj)
  | waited hk h ih =>
    rcases Journal.prefix_append_cases hj with hj | ⟨i, rfl, hi⟩
    · exact supports_of_idle (hk.of_isPrefix hj)
    · exact (ih hi).of_alike (hk.append_alike i)
  | refused hblock hpush =>
    rcases List.prefix_cons_iff.mp hj with rfl | ⟨i, rfl, hi⟩
    · exact supports_of_idle .nil
    · rw [List.prefix_nil.mp hi]
      exact .inl (by simp)
  | broken hblock hpush hk hending =>
    rcases List.prefix_cons_iff.mp hj with rfl | ⟨i, rfl, hi⟩
    · exact supports_of_idle .nil
    · exact supports_of_writing _ hpush (Journal.blocks_eq_nil_of_isPrefix hk.blocks_eq hi)
        ((Journal.written_mono hi).trans hk.written_isPrefix)
  | moved hblock hpush hk h ih =>
    -- The moment is before the block is written out whole, or it is one of the rest of the course.
    rcases Journal.prefix_append_cases hj with hj | ⟨i, rfl, hi⟩
    · rcases List.prefix_cons_iff.mp hj with rfl | ⟨i, rfl, hi⟩
      · exact supports_of_idle .nil
      · exact supports_of_writing _ hpush (Journal.blocks_eq_nil_of_isPrefix hk.blocks_eq hi)
          (hk.written_eq ▸ Journal.written_mono hi)
    · exact (ih hi).after_moved hblock hpush hk
  | unfinished hended hfinish =>
    rw [List.prefix_nil.mp hj]
    exact supports_of_idle .nil
  | lastBroken hended hfinish hk hending =>
    exact supports_of_finishing hended hfinish (Journal.blocks_eq_nil_of_isPrefix hk.blocks_eq hj)
      ((Journal.written_mono hj).trans hk.written_isPrefix)
  | @lastMoved source f last f' ending k l hended hfinish hk hl hsink =>
    have hblocks : (k ++ l).blocks = [] := by simp [hk.blocks_eq, hl.blocks_eq]
    have hwritten : (k ++ l).written = last := by simp [hk.written_eq, hl.written_eq]
    exact supports_of_finishing hended hfinish (Journal.blocks_eq_nil_of_isPrefix hblocks hj)
      (hwritten ▸ Journal.written_mono hj)

/-! ## What was moved -/

/-- What was written out whole begins the freight, and the payload counted is its payload. -/
structure Settles (job : Job) (freight : List (Octets × Octets)) (k : Journal) (n : Nat) :
    Prop where
  moves : k.Begins freight
  counted : n = (k.moves.map job.direction.payload).sum

theorem settles_of_idle (freight : List (Octets × Octets)) (hk : k.Idle) :
    job.Settles freight k 0 where
  moves := ⟨freight, [], by simp [hk.moves_eq], by simp [hk.written_eq, hk.moves_eq], .inl rfl⟩
  counted := by simp [hk.moves_eq]

theorem Settles.of_alike {freight : List (Octets × Octets)} {l : Journal}
    (h : job.Settles freight k n) (hl : l.Alike k) : job.Settles freight l n where
  moves := by simpa [Journal.Begins, hl.moves_eq, hl.written_eq] using h.moves
  counted := by simpa [hl.moves_eq] using h.counted

theorem settles_of_breaks {block out : Octets} (later : List (Octets × Octets))
    (hk : k.Breaks out) : job.Settles ((block, out) :: later) k 0 where
  moves := by
    refine ⟨(block, out) :: later, k.written, by simp [hk.moves_eq], by simp [hk.moves_eq], ?_⟩
    -- Only a block that became nothing is all written when it is broken off.
    by_cases hwhole : k.written = out
    · exact .inl (hwhole.trans (hk.nil_of_whole hwhole))
    · exact .inr ⟨_, _, rfl, hk.written_isPrefix, hwhole⟩
  counted := by simp [hk.moves_eq]

theorem Settles.after_moved {freight : List (Octets × Octets)} {block out : Octets} {i : Journal}
    (h : job.Settles freight k n) (hi : i.Writes block out) :
    job.Settles ((block, out) :: freight) (i ++ k) (job.direction.payload (block, out) + n) where
  moves := by
    obtain ⟨later, part, hfreight, hwritten, hpart⟩ := h.moves
    exact ⟨later, part, by simp [hi.moves_eq, hfreight],
      by simp [hi.moves_eq, hi.written_eq, hwritten], hpart⟩
  counted := by simp [hi.moves_eq, h.counted]

theorem Settles.after_read {freight : List (Octets × Octets)} (h : job.Settles freight k n)
    (block : Octets) : job.Settles freight (.read block :: k) n :=
  ⟨h.moves, h.counted⟩

theorem Carries.settles (h : job.Carries source f ending k n) :
    job.Settles (job.filter.freight source f) k n := by
  induction h with
  | stopped hk hending => exact settles_of_idle _ hk
  | @waited _ _ _ _ k l hk h ih => exact ih.of_alike (hk.append_alike l)
  | refused hblock hpush => exact (settles_of_idle _ .nil).after_read _
  | broken hblock hpush hk hending =>
    rw [freight_cons hblock hpush]
    exact (settles_of_breaks _ hk).after_read _
  | moved hblock hpush hk h ih =>
    rw [freight_cons hblock hpush]
    exact (ih.after_moved hk).after_read _
  | unfinished hended hfinish => exact settles_of_idle _ .nil
  | lastBroken hended hfinish hk hending =>
    rw [freight_of_ended hended, remainder_of_ok hfinish]
    exact settles_of_breaks _ hk
  | lastMoved hended hfinish hk hl hsink =>
    rw [freight_of_ended hended, remainder_of_ok hfinish]
    exact (settles_of_idle [] hl).after_moved hk

/-! ## A course that came to its end -/

/-- Everything the source gives was read, and everything the filter makes of it was written, before
the sink was flushed and shut down. -/
structure Completes (job : Job) (source : Source) (f : job.filter.State) (k : Journal) : Prop where
  blocks : source.blocks? = some k.blocks
  outputs : job.filter.outputsFrom f k.blocks = .ok (k.moves.map Prod.snd)
  moves : k.moves.map Prod.fst = k.blocks ++ [[]]
  written : k.written = (k.moves.map Prod.snd).flatten
  flushed : k.flushed
  shut : k.shut

theorem Completes.sum_length_sources (h : job.Completes source f k) :
    (k.moves.map fun moved => moved.1.length).sum = k.blocks.flatten.length := by
  have hmoves : (k.moves.map fun moved => moved.1.length) =
      (k.moves.map Prod.fst).map List.length := by
    rw [List.map_map]
    rfl
  rw [hmoves, h.moves]
  simp [List.length_flatten]

theorem Completes.of_alike {l : Journal} (h : job.Completes source f k) (hl : l.Alike k)
    (hflushed : l.flushed) (hshut : l.shut) : job.Completes source f l where
  blocks := by simpa [hl.blocks_eq] using h.blocks
  outputs := by simpa [hl.blocks_eq, hl.moves_eq] using h.outputs
  moves := by simpa [hl.blocks_eq, hl.moves_eq] using h.moves
  written := by simpa [hl.written_eq, hl.moves_eq] using h.written
  flushed := hflushed
  shut := hshut

theorem Completes.after_moved {rest : Source} {f' : job.filter.State} {block out : Octets}
    {cancels : Bool} {i : Journal} (h : job.Completes rest f' k) (hblock : block.isEmpty = false)
    (hpush : job.filter.push f block = .ok (out, f')) (hi : i.Writes block out) :
    job.Completes (.completes (.ok block) cancels :: rest) f (.read block :: i ++ k) where
  blocks := by
    rw [Source.blocks?_cons hblock, h.blocks]
    simp [hi.blocks_eq]
  outputs := by
    have hblocks : Journal.blocks (.read block :: i ++ k) = block :: k.blocks := by
      simp [hi.blocks_eq]
    rw [hblocks]
    refine Filter.outputsFrom_cons_eq_ok_iff.mpr ⟨out, f', _, hpush, h.outputs, ?_⟩
    simp [hi.moves_eq]
  moves := by simp [hi.blocks_eq, hi.moves_eq, h.moves]
  written := by simp [hi.written_eq, hi.moves_eq, h.written]
  flushed := by rw [Journal.flushed_append, h.flushed, Bool.or_true]
  shut := by rw [Journal.shut_append, h.shut, Bool.or_true]

theorem completes_of_last {f' : job.filter.State} {last : Octets} {i : Journal}
    (hended : source.Ended) (hfinish : job.filter.finish f = .ok (last, f'))
    (hi : i.Writes [] last) (hk : k.Idle) (hflushed : k.flushed) (hshut : k.shut) :
    job.Completes source f (i ++ k) where
  blocks := by simp [Source.blocks?_of_ended hended, hi.blocks_eq, hk.blocks_eq]
  outputs := by
    have hblocks : Journal.blocks (i ++ k) = [] := by simp [hi.blocks_eq, hk.blocks_eq]
    rw [hblocks]
    refine Filter.outputsFrom_nil_eq_ok_iff.mpr ⟨last, f', hfinish, ?_⟩
    simp [hi.moves_eq, hk.moves_eq]
  moves := by simp [hi.moves_eq, hi.blocks_eq, hk.moves_eq, hk.blocks_eq]
  written := by simp [hi.moves_eq, hi.written_eq, hk.moves_eq, hk.written_eq]
  flushed := by rw [Journal.flushed_append, hflushed, Bool.or_true]
  shut := by rw [Journal.shut_append, hshut, Bool.or_true]

theorem Carries.completes (h : job.Carries source f ending k n) (hcomplete : ending = .complete) :
    job.Completes source f k := by
  induction h with
  | stopped hk hending => exact absurd hcomplete hending
  | @waited _ _ _ _ k l hk h ih =>
    have hrest := ih hcomplete
    exact hrest.of_alike (hk.append_alike l) (by simp [hrest.flushed]) (by simp [hrest.shut])
  | refused hblock hpush => exact absurd hcomplete (by simp)
  | broken hblock hpush hk hending => exact absurd hcomplete hending
  | moved hblock hpush hk h ih => exact (ih hcomplete).after_moved hblock hpush hk
  | unfinished hended hfinish => exact absurd hcomplete (by simp)
  | lastBroken hended hfinish hk hending => exact absurd hcomplete hending
  | lastMoved hended hfinish hk hl hsink =>
    obtain ⟨hflushed, hshut⟩ := hsink hcomplete
    exact completes_of_last hended hfinish hk hl hflushed hshut

end Job

end Transfer

end FaxClient
