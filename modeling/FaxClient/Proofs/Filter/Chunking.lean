import FaxClient.Proofs.Filter.Direction

/-!
# What filters give for chunks

Without compression the filters of a transfer refuse nothing, and what comes out depends on the octets
alone and not on the chunks they come in.  It is said here with the places of the octets: where a CR
is inserted or left out is told by the octet before or the octet after.  After each chunk all that
can be told so far has come out, but for a CR at the end inbound, which the next octet decides on.
-/

namespace FaxClient

namespace Filter

/-! ## Outputs after each chunk -/

theorem outputsFrom_cases {f : Filter} {s : f.State} {chunks all : List Octets}
    (h : f.outputsFrom s chunks = .ok all) :
    ∃ outs last, all = outs ++ [last] ∧ outs.length = chunks.length ∧
      ∀ n, f.emissions s (chunks.take n) = outs.take n := by
  induction chunks generalizing s all with
  | nil =>
    obtain ⟨last, -, -, rfl⟩ := outputsFrom_nil_eq_ok_iff.mp h
    exact ⟨[], last, by simp⟩
  | cons chunk chunks ih =>
    obtain ⟨out, s', rest, hpush, hrest, rfl⟩ := outputsFrom_cons_eq_ok_iff.mp h
    obtain ⟨outs, last, rfl, hlen, htake⟩ := ih hrest
    refine ⟨out :: outs, last, rfl, by simp [hlen], ?_⟩
    rintro (_ | n)
    · rfl
    · rw [List.take_succ_cons, List.take_succ_cons, emissions_cons_of_ok hpush, htake]

/-- However octets are cut into chunks, nothing is refused and what comes out is what the image makes
of them.  What has come out after some of the chunks, with what is withheld of these, is what the
image makes of these. -/
def Renders (f : Filter) (image withheld : Octets → Octets) : Prop :=
  ∀ chunks, ∃ outs last, f.outputs chunks = .ok (outs ++ [last]) ∧ outs.length = chunks.length ∧
    (outs ++ [last]).flatten = image chunks.flatten ∧
    ∀ n, (outs.take n).flatten ++ withheld (chunks.take n).flatten = image (chunks.take n).flatten

theorem renders_of_run_of_emitted {f : Filter} {image withheld : Octets → Octets}
    (hrun : ∀ chunks, f.run chunks = .ok (image chunks.flatten))
    (hemitted : ∀ chunks, f.emitted chunks ++ withheld chunks.flatten = image chunks.flatten) :
    f.Renders image withheld := by
  intro chunks
  obtain ⟨all, hall, hflat⟩ := (run_eq_ok_iff _ _ _).mp (hrun chunks)
  obtain ⟨outs, last, rfl, hlen, htake⟩ := outputsFrom_cases hall
  refine ⟨outs, last, hall, hlen, hflat, fun n => ?_⟩
  rw [← htake n]
  exact hemitted (chunks.take n)

theorem Renders.run_eq {f : Filter} {image withheld : Octets → Octets}
    (h : f.Renders image withheld) (chunks : List Octets) :
    f.run chunks = .ok (image chunks.flatten) := by
  obtain ⟨outs, last, houts, -, hflat, -⟩ := h chunks
  exact (run_eq_ok_iff _ _ _).mpr ⟨outs ++ [last], houts, hflat⟩

theorem Renders.chunkInvariant {f : Filter} {image withheld : Octets → Octets}
    (h : f.Renders image withheld) : f.ChunkInvariant := by
  intro chunks
  rw [h.run_eq, h.run_eq, List.flatten_singleton]

end Filter

namespace LineEnding

open Octets

/-! ## Places -/

/-- Octets with a CR before each LF whose preceding octet, if there is one, is not a CR. -/
def crInserted (x : Octets) : Octets :=
  (x.mapIdx fun i b => if b = lf ∧ (i = 0 ∨ x[i - 1]? ≠ some cr) then [cr, lf] else [b]).flatten

/-- Octets without each CR whose following octet is an LF. -/
def crOmitted (x : Octets) : Octets :=
  (x.mapIdx fun i b => if b = cr ∧ x[i + 1]? = some lf then [] else [b]).flatten

/-- A CR at the end, which the next octet may turn out to belong to. -/
def trailingCr (x : Octets) : Octets := if x.getLast? = some cr then [cr] else []

theorem expandAfter_eq_mapIdx (previous : Option UInt8) (x : Octets) :
    expandAfter previous x = (x.mapIdx fun i b =>
      if b = lf ∧ (if i = 0 then previous else x[i - 1]?) ≠ some cr then [cr, lf]
      else [b]).flatten := by
  induction x generalizing previous with
  | nil => rfl
  | cons b rest ih =>
    have hplace (i : Nat) : (b :: rest)[i]? = if i = 0 then some b else rest[i - 1]? := by
      cases i <;> simp
    rw [expandAfter, List.mapIdx_cons, List.flatten_cons]
    simp only [Nat.succ_ne_zero, if_false, Nat.add_sub_cancel, hplace, if_true]
    rw [← ih (some b)]
    split
    · next h => simp [h.1]
    · simp

theorem expand_eq_crInserted (x : Octets) : expand x = crInserted x := by
  rw [expand, expandAfter_eq_mapIdx, crInserted]
  congr 2
  funext i b
  by_cases hi : i = 0 <;> simp [hi]

theorem contract_eq_crOmitted (x : Octets) : contract x = crOmitted x := by
  induction x with
  | nil => rfl
  | cons b rest ih =>
    rw [contract, ih, crOmitted, crOmitted, List.mapIdx_cons, List.flatten_cons]
    simp only [List.getElem?_cons_succ, Nat.zero_add, List.head?_eq_getElem?]
    split <;> simp

theorem endsCr_eq (x : Octets) : endsCr false x = decide (x.getLast? = some cr) := by
  rcases List.eq_nil_or_concat x with rfl | ⟨init, b, rfl⟩
  · rfl
  · rw [List.concat_eq_append, endsCr_append, List.getLast?_concat]
    simp [endsCr, beq_eq_decide]

theorem encoder_renders : encoder.Renders crInserted fun _ => [] := by
  refine Filter.renders_of_run_of_emitted ?_ ?_
  · intro chunks
    rw [run_encoder, expand_eq_crInserted]
  · intro chunks
    rw [emitted_encoder, expand_eq_crInserted, List.append_nil]

theorem decoder_renders : decoder.Renders crOmitted trailingCr := by
  refine Filter.renders_of_run_of_emitted ?_ ?_
  · intro chunks
    rw [run_decoder, contract_eq_crOmitted]
  · intro chunks
    have hwithheld : trailingCr chunks.flatten =
        if endsCr false chunks.flatten then [cr] else [] := by
      simp [trailingCr, endsCr_eq]
    rw [hwithheld, emitted_decoder, contract_eq_crOmitted]

end LineEnding

namespace Filter

open LineEnding

theorem identity_renders : identity.Renders id fun _ => [] := by
  refine renders_of_run_of_emitted run_identity fun chunks => ?_
  rw [List.append_nil]
  exact congrArg List.flatten (emissions_identity identity.start chunks)

/-- Without compression, what the filters of a transfer give is told by the places of the octets. -/
theorem stream_renders (codec : Codec) :
    (outbound codec .ascii .stream).Renders crInserted (fun _ => []) ∧
      (inbound codec .ascii .stream).Renders crOmitted trailingCr ∧
      (outbound codec .image .stream).Renders id (fun _ => []) ∧
      (inbound codec .image .stream).Renders id (fun _ => []) :=
  ⟨encoder_renders, decoder_renders, identity_renders, identity_renders⟩

/-- A CR at the end of a chunk waits through an empty one; of two the first is let go. -/
example (codec : Codec) : (inbound codec .ascii .stream).outputs [[97, 13], [], [13], [10, 13]] =
    .ok [[97], [], [13], [10], [13]] := rfl

end Filter

end FaxClient
