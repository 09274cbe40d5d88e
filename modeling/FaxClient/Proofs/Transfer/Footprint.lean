import FaxClient.Proofs.Transfer.Announcements

/-!
# What a stretch of a transfer leaves behind

What was read, what the sink took and which blocks were written out whole is read off the entries
that a stretch of a transfer noted.  All other entries are idle.
-/

namespace FaxClient.Transfer

/-! ## What is read off a journal -/

namespace Journal

/-- The blocks that were read. -/
def blocks (j : Journal) : List Octets :=
  j.filterMap fun
    | .read block => some block
    | _ => none

/-- The blocks that were written out whole, each with what the filter made of it. -/
def moves (j : Journal) : List (Octets × Octets) :=
  j.filterMap fun
    | .moved block out => some (block, out)
    | _ => none

@[simp] theorem blocks_nil : blocks [] = [] := rfl

@[simp] theorem moves_nil : moves [] = [] := rfl

@[simp] theorem written_nil : written [] = [] := rfl

@[simp] theorem blocks_append (j k : Journal) : (j ++ k).blocks = j.blocks ++ k.blocks := by
  simp [blocks]

@[simp] theorem moves_append (j k : Journal) : (j ++ k).moves = j.moves ++ k.moves := by
  simp [moves]

@[simp] theorem written_append (j k : Journal) : (j ++ k).written = j.written ++ k.written := by
  simp [written]

@[simp] theorem flushed_append (j k : Journal) : (j ++ k).flushed = (j.flushed || k.flushed) := by
  simp [flushed]

@[simp] theorem shut_append (j k : Journal) : (j ++ k).shut = (j.shut || k.shut) := by
  simp [shut]

@[simp] theorem blocks_read_cons (block : Octets) (j : Journal) :
    blocks (.read block :: j) = block :: j.blocks := rfl

@[simp] theorem moves_read_cons (block : Octets) (j : Journal) :
    moves (.read block :: j) = j.moves := rfl

@[simp] theorem written_read_cons (block : Octets) (j : Journal) :
    written (.read block :: j) = j.written := rfl

@[simp] theorem blocks_took (octets : Octets) : blocks [.took octets] = [] := rfl

@[simp] theorem moves_took (octets : Octets) : moves [.took octets] = [] := rfl

@[simp] theorem written_took (octets : Octets) : written [.took octets] = octets := by
  simp [written]

@[simp] theorem blocks_moved (block out : Octets) : blocks [.moved block out] = [] := rfl

@[simp] theorem moves_moved (block out : Octets) :
    moves [.moved block out] = [(block, out)] := rfl

@[simp] theorem written_moved (block out : Octets) : written [.moved block out] = [] := rfl

theorem input_eq_flatten (j : Journal) : j.input = j.blocks.flatten := by
  induction j with
  | nil => rfl
  | cons e j ih => cases e <;> simpa [input, blocks] using ih

theorem prefix_append_cases {i j k : Journal} (h : i <+: j ++ k) :
    i <+: j ∨ ∃ l, i = j ++ l ∧ l <+: k := by
  rcases List.prefix_or_prefix_of_prefix h (List.prefix_append j k) with hi | ⟨l, rfl⟩
  · exact .inl hi
  · exact .inr ⟨l, rfl, (List.prefix_append_right_inj j).mp h⟩

theorem written_mono {j k : Journal} (h : j <+: k) : j.written <+: k.written := h.flatMap _

/-- Nothing was read, written or moved. -/
structure Idle (j : Journal) : Prop where
  blocks_eq : j.blocks = []
  moves_eq : j.moves = []
  written_eq : j.written = []

/-- The sink took a beginning of octets on offer, and all of them exactly if the calls came to
their end. -/
structure Takes (j : Journal) (octets : Octets) (ending : Ending) : Prop where
  blocks_eq : j.blocks = []
  moves_eq : j.moves = []
  written_isPrefix : j.written <+: octets
  complete_iff : ending = .complete ↔ j.written = octets

/-- A block was written out whole. -/
structure Writes (j : Journal) (block out : Octets) : Prop where
  blocks_eq : j.blocks = []
  moves_eq : j.moves = [(block, out)]
  written_eq : j.written = out

/-- What was to be written out whole was not; unless it was nothing, some of it is missing. -/
structure Breaks (j : Journal) (out : Octets) : Prop where
  blocks_eq : j.blocks = []
  moves_eq : j.moves = []
  written_isPrefix : j.written <+: out
  nil_of_whole : j.written = out → out = []

theorem Idle.nil : Idle [] := ⟨rfl, rfl, rfl⟩

theorem Idle.append {j k : Journal} (hj : j.Idle) (hk : k.Idle) : (j ++ k).Idle :=
  ⟨by simp [hj.blocks_eq, hk.blocks_eq], by simp [hj.moves_eq, hk.moves_eq],
    by simp [hj.written_eq, hk.written_eq]⟩

/-- Two journals tell of the same reading, writing and moving. -/
structure Alike (j k : Journal) : Prop where
  blocks_eq : j.blocks = k.blocks
  moves_eq : j.moves = k.moves
  written_eq : j.written = k.written

theorem Idle.append_alike {i : Journal} (h : i.Idle) (j : Journal) : (i ++ j).Alike j :=
  ⟨by simp [h.blocks_eq], by simp [h.moves_eq], by simp [h.written_eq]⟩

theorem Idle.alike_append {i : Journal} (h : i.Idle) (j : Journal) : (j ++ i).Alike j :=
  ⟨by simp [h.blocks_eq], by simp [h.moves_eq], by simp [h.written_eq]⟩

theorem Idle.breaks {j : Journal} (h : j.Idle) (out : Octets) : j.Breaks out where
  blocks_eq := h.blocks_eq
  moves_eq := h.moves_eq
  written_isPrefix := by simp [h.written_eq]
  nil_of_whole := fun hwhole => by rw [← hwhole, h.written_eq]

theorem Takes.nothing : Takes [] [] .complete := ⟨rfl, rfl, List.nil_prefix, by simp⟩

theorem Takes.stopped {j : Journal} {octets : Octets} {ending : Ending} (h : j.Idle)
    (hending : ending ≠ .complete) (hoctets : octets ≠ []) : j.Takes octets ending where
  blocks_eq := h.blocks_eq
  moves_eq := h.moves_eq
  written_isPrefix := by simp [h.written_eq]
  complete_iff := by simp [h.written_eq, hending, hoctets.symm]

theorem Takes.after {j : Journal} {rest : Octets} {ending : Ending} (h : j.Takes rest ending)
    {i : Journal} (hblocks : i.blocks = []) (hmoves : i.moves = []) :
    (i ++ j).Takes (i.written ++ rest) ending where
  blocks_eq := by simp [hblocks, h.blocks_eq]
  moves_eq := by simp [hmoves, h.moves_eq]
  written_isPrefix := by
    rw [written_append, List.prefix_append_right_inj]
    exact h.written_isPrefix
  complete_iff := by simp [h.complete_iff]

theorem Takes.writes {i j : Journal} {block out : Octets} (h : j.Takes out .complete)
    (hi : i.Idle) : (i ++ j ++ [Entry.moved block out]).Writes block out where
  blocks_eq := by simp [hi.blocks_eq, h.blocks_eq]
  moves_eq := by simp [hi.moves_eq, h.moves_eq]
  written_eq := by simp [hi.written_eq, h.complete_iff.mp rfl]

theorem Takes.breaks {i j : Journal} {out : Octets} {ending : Ending} (h : j.Takes out ending)
    (hi : i.Idle) (hending : ending ≠ .complete) : (i ++ j).Breaks out where
  blocks_eq := by simp [hi.blocks_eq, h.blocks_eq]
  moves_eq := by simp [hi.moves_eq, h.moves_eq]
  written_isPrefix := by simpa [hi.written_eq] using h.written_isPrefix
  nil_of_whole := by
    intro hwhole
    have hall : j.written = out := by simpa [hi.written_eq] using hwhole
    exact absurd (h.complete_iff.mpr hall) hending

theorem blocks_eq_nil_of_isPrefix {j k : Journal} (hk : k.blocks = []) (h : j <+: k) :
    j.blocks = [] := by
  have hprefix : j.blocks <+: k.blocks := h.filterMap _
  rw [hk] at hprefix
  exact List.prefix_nil.mp hprefix

theorem Idle.of_isPrefix {j k : Journal} (hk : k.Idle) (h : j <+: k) : j.Idle := by
  have hmoves : j.moves <+: k.moves := h.filterMap _
  have hwritten : j.written <+: k.written := written_mono h
  rw [hk.moves_eq] at hmoves
  rw [hk.written_eq] at hwritten
  exact ⟨blocks_eq_nil_of_isPrefix hk.blocks_eq h, List.prefix_nil.mp hmoves,
    List.prefix_nil.mp hwritten⟩

end Journal

/-- Entries that tell of nothing read, written or moved. -/
def Entry.IsIdle : Entry → Prop
  | .read _ | .took _ | .moved .. => False
  | .began _ | .flushed | .shut | .announced _ | .cancelled => True

theorem Journal.idle_singleton {e : Entry} (h : e.IsIdle) : Journal.Idle [e] := by
  cases e with
  | read block => exact h.elim
  | took octets => exact h.elim
  | moved block out => exact h.elim
  | began operation => exact ⟨rfl, rfl, rfl⟩
  | flushed => exact ⟨rfl, rfl, rfl⟩
  | shut => exact ⟨rfl, rfl, rfl⟩
  | announced event => exact ⟨rfl, rfl, rfl⟩
  | cancelled => exact ⟨rfl, rfl, rfl⟩

/-! ## From one state to a later one -/

/-- From `s` to `t` the entries of `k` were noted, and `n` more payload was counted. -/
structure State.Went (s : State) (k : Journal) (n : Nat) (t : State) : Prop where
  journal_eq : t.journal = s.journal ++ k
  total_eq : t.progress.total = s.progress.total + n

/-- From `s` to `t` nothing was read, written, moved or counted. -/
def State.Waited (s t : State) : Prop := ∃ k : Journal, k.Idle ∧ s.Went k 0 t

namespace State

variable {s t u : State} {k l : Journal} {m n : Nat}

theorem Went.refl (s : State) : s.Went [] 0 s := ⟨by simp, rfl⟩

theorem Went.trans (h : s.Went k m t) (h' : t.Went l n u) : s.Went (k ++ l) (m + n) u :=
  ⟨by rw [h'.journal_eq, h.journal_eq, List.append_assoc],
    by rw [h'.total_eq, h.total_eq, Nat.add_assoc]⟩

theorem went_note (s : State) (e : Entry) : s.Went [e] 0 (s.note e) :=
  ⟨by simp [journal, note], rfl⟩

theorem Waited.refl (s : State) : s.Waited s := ⟨[], .nil, .refl s⟩

theorem Waited.trans (h : s.Waited t) (h' : t.Waited u) : s.Waited u := by
  obtain ⟨k, hk, hst⟩ := h
  obtain ⟨l, hl, htu⟩ := h'
  exact ⟨k ++ l, hk.append hl, hst.trans htu⟩

theorem waited_note (s : State) {e : Entry} (h : e.IsIdle) : s.Waited (s.note e) :=
  ⟨[e], Journal.idle_singleton h, s.went_note e⟩

theorem waited_call (s : State) : s.Waited { s with calls := s.calls + 1 } :=
  ⟨[], .nil, by simp [journal], rfl⟩

theorem waited_cancelIf (s : State) (cancels : Bool) : s.Waited (s.cancelIf cancels) := by
  cases cancels with
  | false => exact .refl s
  | true =>
    have hcancel : s.Went [.cancelled] 0 s.cancel := ⟨(s.went_note .cancelled).journal_eq, rfl⟩
    exact ⟨[.cancelled], Journal.idle_singleton trivial, hcancel⟩

theorem waited_cancel (s : State) : s.Waited s.cancel := s.waited_cancelIf true

theorem waited_emit (s : State) (watch : Watch) (e : Event) : s.Waited (s.emit watch e) :=
  (s.waited_note (e := .announced e) trivial).trans (waited_cancelIf _ _)

theorem took_cancelIf (s : State) (octets : Octets) (cancels : Bool) :
    ∃ k : Journal, k.blocks = [] ∧ k.moves = [] ∧ k.written = octets ∧
      s.Went k 0 (({ s with calls := s.calls + 1 }.note (.took octets)).cancelIf cancels) := by
  obtain ⟨l, hl, hcancelled⟩ :=
    ({ s with calls := s.calls + 1 }.note (.took octets)).waited_cancelIf cancels
  have htook : s.Went [.took octets] 0 ({ s with calls := s.calls + 1 }.note (.took octets)) :=
    ⟨by simp [journal, note], rfl⟩
  refine ⟨_, ?_, ?_, ?_, htook.trans hcancelled⟩
  · rw [Journal.blocks_append, Journal.blocks_took, hl.blocks_eq, List.append_nil]
  · rw [Journal.moves_append, Journal.moves_took, hl.moves_eq, List.append_nil]
  · rw [Journal.written_append, Journal.written_took, hl.written_eq, List.append_nil]

end State

end FaxClient.Transfer
