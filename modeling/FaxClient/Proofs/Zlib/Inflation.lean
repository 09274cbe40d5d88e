import FaxClient.Proofs.Filter.Emission
import FaxClient.Zlib

/-!
# Decompression as the octets come

What has been decompressed is never taken back, and it depends only on the octets read so far.  So
the decompressor follows a function on octets: what comes out of the longest beginning of them that
is accepted.
-/

namespace FaxClient.Zlib.Inflate.State

/-! ## Nothing is taken back -/

/-- What has come out is still there, at the beginning. -/
def Grows (s t : State) : Prop := s.out.toList <+: t.out.toList

section

variable {s t u : State}

theorem Grows.refl (s : State) : s.Grows s := List.prefix_rfl

theorem Grows.trans (h : s.Grows t) (h' : t.Grows u) : s.Grows u := List.IsPrefix.trans h h'

theorem Grows.of_out_eq (h : t.out = s.out) : s.Grows t := by
  rw [Grows, h]

end

@[simp] theorem out_goto (s : State) (phase : Phase) : (s.goto phase).out = s.out := rfl

@[simp] theorem out_read (s : State) (field : Field) : (s.read field).out = s.out := rfl

@[simp] theorem out_nextBlock (s : State) : s.nextBlock.out = s.out := by
  unfold nextBlock
  split <;> rfl

@[simp] theorem out_literal (s : State) (codes : Codes) : (s.literal codes).out = s.out := rfl

@[simp] theorem out_distance (s : State) (codes : Codes) (length : Nat) :
    (s.distance codes length).out = s.out := rfl

@[simp] theorem out_withLengths (s : State) (l : Lengths) : (s.withLengths l).out = s.out := by
  unfold withLengths
  split
  · rfl
  · split
    · rfl
    · dsimp only
      split <;> rfl

theorem grows_emit (s : State) (b : UInt8) : s.Grows (s.emit b) := by
  simp [Grows, emit]

theorem grows_copy (s : State) (distance n : Nat) : s.Grows (s.copy distance n) := by
  induction n generalizing s with
  | zero => exact .refl s
  | succ n ih => exact (s.grows_emit _).trans (ih _)

theorem grows_number (s : State) (field : Field) (value : Nat) :
    s.Grows (s.number field value) := by
  cases field with
  | header =>
    apply Grows.of_out_eq
    simp only [number]
    split <;> rfl
  | block =>
    apply Grows.of_out_eq
    simp only [number]
    split <;> rfl
  | storedSize =>
    apply Grows.of_out_eq
    simp only [number]
    split_ifs <;> simp
  | storedOctet left =>
    refine (s.grows_emit value.toUInt8).trans (.of_out_eq ?_)
    simp only [number]
    split <;> simp
  | counts =>
    apply Grows.of_out_eq
    simp only [number]
    split <;> rfl
  | codeLength literals distances left seen =>
    apply Grows.of_out_eq
    cases left with
    | nil => rfl
    | cons i left =>
      simp only [number]
      split
      · split <;> simp
      · rfl
  | runLength l length least extra => exact .of_out_eq (out_withLengths s _)
  | lengthBits codes least extra => exact .of_out_eq rfl
  | distanceBits codes length least extra => exact s.grows_copy _ _
  | checksum =>
    apply Grows.of_out_eq
    simp only [number]
    split <;> rfl

theorem grows_readBits (s : State) (field : Field) : s.Grows (s.readBits field) := by
  unfold readBits
  split
  · exact s.grows_number field 0
  · exact .of_out_eq rfl

theorem grows_symbol (s : State) (alphabet : Alphabet) (symbol : Nat) :
    s.Grows (s.symbol alphabet symbol) := by
  cases alphabet with
  | lengths l =>
    apply Grows.of_out_eq
    simp only [State.symbol]
    split_ifs
    · simp
    · split <;> rfl
    · rfl
    · rfl
  | literals codes =>
    simp only [State.symbol]
    split_ifs
    · exact s.grows_emit _
    · exact .of_out_eq (out_nextBlock s)
    · split
      · exact s.grows_readBits _
      · exact .of_out_eq rfl
  | distances codes length =>
    simp only [State.symbol]
    split
    · exact s.grows_readBits _
    · exact .of_out_eq rfl

theorem grows_bit (s : State) (b : Bool) : s.Grows (s.bit b) := by
  unfold bit
  split
  · dsimp only
    split
    · exact .of_out_eq rfl
    · exact s.grows_number _ _
  · split
    · exact .of_out_eq rfl
    · exact s.grows_symbol _ _
    · exact .of_out_eq rfl
  · exact .refl s
  · exact .refl s
  · exact .refl s

theorem grows_bits (s : State) (b : UInt8) (count : Nat) : s.Grows (s.bits b count) := by
  induction count generalizing s b with
  | zero => exact .refl s
  | succ count ih => exact (s.grows_bit _).trans (ih _ _)

theorem grows_octet (s : State) (b : UInt8) : s.Grows (s.octet b) := by
  refine (s.grows_bits b 8).trans (.of_out_eq ?_)
  unfold octet
  dsimp only
  split <;> rfl

/-! ## What comes out of octets -/

theorem octets_singleton {s t : State} {b : UInt8} (h : s.octets [b] = .ok t) : t = s.octet b := by
  simp only [octets] at h
  split at h
  · cases h
  · split at h
    · cases h
    · exact (Except.ok.inj h).symm

theorem octets_cons (s : State) (b : UInt8) (rest : Octets) :
    s.octets (b :: rest) = s.octets [b] >>= fun t => t.octets rest := by
  simp only [octets]
  split
  · rfl
  · split <;> rfl

theorem octets_append (s : State) (x y : Octets) :
    s.octets (x ++ y) = s.octets x >>= fun t => t.octets y := by
  induction x generalizing s with
  | nil => rfl
  | cons b rest ih =>
    rw [List.cons_append, octets_cons, s.octets_cons b rest, bind_assoc]
    simp only [ih]

/-- The state after the longest beginning of octets that is accepted. -/
def accepted (s : State) : Octets → State
  | [] => s
  | b :: rest =>
    match s.octets [b] with
    | .error _ => s
    | .ok t => t.accepted rest

theorem grows_accepted (s : State) (x : Octets) : s.Grows (s.accepted x) := by
  induction x generalizing s with
  | nil => exact .refl s
  | cons b rest ih =>
    unfold accepted
    split
    · exact .refl s
    · next t heq =>
      rw [octets_singleton heq]
      exact (s.grows_octet b).trans (ih _)

theorem accepted_append {s t : State} {x : Octets} (h : s.octets x = .ok t) (y : Octets) :
    s.accepted (x ++ y) = t.accepted y := by
  induction x generalizing s with
  | nil =>
    cases h
    rfl
  | cons b rest ih =>
    rw [octets_cons] at h
    obtain ⟨u, hu, hrest⟩ := Filter.bind_eq_ok_iff.mp h
    rw [List.cons_append, accepted, hu]
    exact ih hrest

theorem accepted_of_ok {s t : State} {x : Octets} (h : s.octets x = .ok t) : s.accepted x = t := by
  simpa [accepted] using accepted_append h []

end FaxClient.Zlib.Inflate.State

namespace FaxClient.Zlib

open Inflate (State)

/-- What octets decompress to, as far as they are accepted. -/
def inflated (octets : Octets) : Octets := (Inflate.start.accepted octets).out.toList

theorem push_inflate_eq_ok_iff {s t : State} {chunk out : Octets} :
    inflate.push s chunk = .ok (out, t) ↔
      s.octets chunk = .ok t ∧ t.out.toList = s.out.toList ++ out := by
  simp only [inflate, Filter.bind_eq_ok_iff, pure, Except.pure, Except.ok.injEq, Prod.mk.injEq]
  constructor
  · rintro ⟨u, hu, rfl, rfl⟩
    obtain ⟨rest, hrest⟩ : s.Grows u := State.accepted_of_ok hu ▸ s.grows_accepted chunk
    have hsize : u.out.size = s.out.size + rest.length := by
      rw [← Array.length_toList, ← hrest, List.length_append, Array.length_toList]
    have hextract : (u.out.extract s.out.size u.out.size).toList = rest := by
      rw [Array.toList_extract, ← hrest, hsize]
      simp
    exact ⟨hu, by rw [hextract, hrest]⟩
  · rintro ⟨ht, hout⟩
    refine ⟨t, ht, ?_, rfl⟩
    have hsize : t.out.size = s.out.size + out.length := by
      rw [← Array.length_toList, hout, List.length_append, Array.length_toList]
    rw [Array.toList_extract, hout, hsize]
    simp

theorem emittedFrom_inflate (s : State) (chunks : List Octets) :
    s.out.toList ++ inflate.emittedFrom s chunks <+: (s.accepted chunks.flatten).out.toList := by
  induction chunks generalizing s with
  | nil =>
    have hnone : inflate.emittedFrom s [] = [] := rfl
    rw [hnone, List.append_nil]
    exact s.grows_accepted _
  | cons chunk chunks ih =>
    cases hpush : inflate.push s chunk with
    | error fault =>
      rw [Filter.emittedFrom_cons_of_error hpush, List.append_nil]
      exact s.grows_accepted _
    | ok pushed =>
      obtain ⟨out, t⟩ := pushed
      obtain ⟨ht, hout⟩ := push_inflate_eq_ok_iff.mp hpush
      rw [Filter.emittedFrom_cons_of_ok hpush, List.flatten_cons, State.accepted_append ht,
        ← List.append_assoc, ← hout]
      exact ih t

theorem outputsFrom_inflate {s : State} {chunks outs : List Octets}
    (h : inflate.outputsFrom s chunks = .ok outs) :
    ∃ t, s.octets chunks.flatten = .ok t ∧ t.out.toList = s.out.toList ++ outs.flatten := by
  induction chunks generalizing s outs with
  | nil =>
    obtain ⟨last, t, hfinish, rfl⟩ := Filter.outputsFrom_nil_eq_ok_iff.mp h
    cases hfinish
    exact ⟨s, rfl, by simp⟩
  | cons chunk chunks ih =>
    obtain ⟨out, t, rest, hpush, hrest, rfl⟩ := Filter.outputsFrom_cons_eq_ok_iff.mp h
    obtain ⟨ht, hout⟩ := push_inflate_eq_ok_iff.mp hpush
    obtain ⟨u, hu, hall⟩ := ih hrest
    refine ⟨u, ?_, by rw [hall, hout, List.flatten_cons, List.append_assoc]⟩
    rw [List.flatten_cons, State.octets_append]
    exact Filter.bind_eq_ok_iff.mpr ⟨t, ht, hu⟩

theorem exists_outputsFrom_inflate {s t : State} {chunks : List Octets}
    (h : s.octets chunks.flatten = .ok t) :
    ∃ outs, inflate.outputsFrom s chunks = .ok outs ∧
      t.out.toList = s.out.toList ++ outs.flatten := by
  induction chunks generalizing s with
  | nil =>
    cases h
    exact ⟨[[]], Filter.outputsFrom_nil_eq_ok_iff.mpr ⟨[], _, rfl, rfl⟩, by simp⟩
  | cons chunk chunks ih =>
    rw [List.flatten_cons, State.octets_append] at h
    obtain ⟨u, hu, hrest⟩ := Filter.bind_eq_ok_iff.mp h
    obtain ⟨out, hout⟩ : s.Grows u := State.accepted_of_ok hu ▸ s.grows_accepted chunk
    obtain ⟨rest, houts, hall⟩ := ih hrest
    have hpush : inflate.push s chunk = .ok (out, u) :=
      push_inflate_eq_ok_iff.mpr ⟨hu, hout.symm⟩
    refine ⟨out :: rest, ?_, by rw [hall, ← hout, List.flatten_cons, List.append_assoc]⟩
    exact Filter.outputsFrom_cons_eq_ok_iff.mpr ⟨out, u, rest, hpush, houts, rfl⟩

theorem run_inflate_eq_ok_iff {chunks : List Octets} {out : Octets} :
    inflate.run chunks = .ok out ↔
      ∃ t, Inflate.start.octets chunks.flatten = .ok t ∧ t.out.toList = out := by
  rw [Filter.run_eq_ok_iff]
  constructor
  · rintro ⟨outs, houts, rfl⟩
    exact outputsFrom_inflate houts
  · rintro ⟨t, ht, rfl⟩
    obtain ⟨outs, houts, hall⟩ := exists_outputsFrom_inflate ht
    exact ⟨outs, houts, hall.symm⟩

theorem inflate_follows : inflate.Follows inflated where
  emitted_isPrefix := fun chunks => emittedFrom_inflate Inflate.start chunks
  run_eq := by
    intro chunks out h
    obtain ⟨t, ht, rfl⟩ := run_inflate_eq_ok_iff.mp h
    rw [inflated, State.accepted_of_ok ht]

end FaxClient.Zlib
