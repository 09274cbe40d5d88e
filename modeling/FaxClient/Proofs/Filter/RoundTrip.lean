import FaxClient.Proofs.Zlib.RoundTrip

/-!
# There and back

Line endings that are expanded and contracted again are those of what was contracted right away, and
expanding twice is expanding once.  Nothing is lost on the way out and back exactly if there is no
CR LF, and nothing on the way in and out again exactly if each LF follows a CR and that CR does not
follow another one.  So what the filters of a transfer make of octets, outbound and then inbound, is
what the inbound representation makes of them.
-/

namespace FaxClient

namespace LineEnding

open Octets

variable (x : Octets)

/-- Octets are gone through as they are contracted: CR LF at once, and any other octet by itself. -/
@[elab_as_elim] theorem contractInduction {motive : Octets → Prop} (nil : motive [])
    (crLf : ∀ rest, motive rest → motive (cr :: lf :: rest))
    (other : ∀ b rest, ¬(b = cr ∧ rest.head? = some lf) → motive rest → motive (b :: rest)) :
    motive x := by
  induction hn : x.length using Nat.strong_induction_on generalizing x with
  | _ n ih =>
    subst hn
    match x with
    | [] => exact nil
    | b :: rest =>
      by_cases h : b = cr ∧ rest.head? = some lf
      · obtain ⟨rfl, hhead⟩ := h
        obtain ⟨rest, rfl⟩ := List.head?_eq_some_iff.mp hhead
        exact crLf rest (ih rest.length (by simp) rest rfl)
      · exact other b rest h (ih rest.length (by simp) rest rfl)

/-! ## Out and back -/

theorem head?_expandAfter_cr : (expandAfter (some cr) x).head? = x.head? := by
  cases x with
  | nil => rfl
  | cons b rest => simp [expandAfter]

theorem contract_cons_of_ne_cr {b : UInt8} (h : b ≠ cr) (rest : Octets) :
    contract (b :: rest) = b :: contract rest := by
  simp [contract, h]

theorem contract_cr_lf (rest : Octets) : contract (cr :: lf :: rest) = lf :: contract rest := by
  simp [contract, show lf ≠ cr by decide]

theorem contract_cons_of_not {b : UInt8} {rest : Octets} (h : ¬(b = cr ∧ rest.head? = some lf)) :
    contract (b :: rest) = b :: contract rest := by
  rw [contract, if_neg h]

theorem expandAfter_cons_of_not {previous : Option UInt8} {b : UInt8}
    (h : ¬(b = lf ∧ previous ≠ some cr)) (rest : Octets) :
    expandAfter previous (b :: rest) = b :: expandAfter (some b) rest := by
  rw [expandAfter, if_neg h]

theorem expandAfter_bare_lf {previous : Option UInt8} (h : previous ≠ some cr) (rest : Octets) :
    expandAfter previous (lf :: rest) = cr :: lf :: expandAfter (some lf) rest := by
  simp [expandAfter, h]

theorem expandAfter_cr_lf (previous : Option UInt8) (rest : Octets) :
    expandAfter previous (cr :: lf :: rest) = cr :: lf :: expandAfter (some lf) rest := by
  rw [expandAfter_cons_of_not (by simp [show cr ≠ lf by decide]), expandAfter_cons_of_not (by simp)]

theorem contract_expandAfter (previous : Option UInt8) :
    contract (expandAfter previous x) = contract x := by
  induction x generalizing previous with
  | nil => rfl
  | cons b rest ih =>
    by_cases hbare : b = lf ∧ previous ≠ some cr
    · obtain ⟨rfl, hprevious⟩ := hbare
      rw [expandAfter_bare_lf hprevious, contract_cr_lf, ih,
        contract_cons_of_ne_cr (by decide)]
    · rw [expandAfter_cons_of_not hbare, contract, contract, ih]
      -- After a CR, an LF stays the next octet.
      by_cases hb : b = cr
      · rw [hb, head?_expandAfter_cr]
      · simp [hb]

theorem contract_expand : contract (expand x) = contract x := contract_expandAfter x none

theorem expandAfter_expandAfter (previous : Option UInt8) :
    expandAfter previous (expandAfter previous x) = expandAfter previous x := by
  induction x generalizing previous with
  | nil => rfl
  | cons b rest ih =>
    by_cases hbare : b = lf ∧ previous ≠ some cr
    · obtain ⟨rfl, hprevious⟩ := hbare
      rw [expandAfter_bare_lf hprevious, expandAfter_cr_lf, ih]
    · rw [expandAfter_cons_of_not hbare, expandAfter_cons_of_not hbare, ih]

theorem expand_expand : expand (expand x) = expand x := expandAfter_expandAfter x none

/-! ## What stays the same -/

theorem singleton_isPrefix_iff {b : UInt8} : [b] <+: x ↔ x.head? = some b := by
  cases x <;> simp [eq_comm]

theorem singleton_isSuffix_iff {b : UInt8} {x : Octets} : [b] <:+ x ↔ x.getLast? = some b := by
  rw [List.getLast?_eq_some_iff]
  exact ⟨fun ⟨init, h⟩ => ⟨init, h.symm⟩, fun ⟨init, h⟩ => ⟨init, h.symm⟩⟩

theorem contract_eq_self_iff : contract x = x ↔ ¬[cr, lf] <:+: x := by
  induction x using contractInduction with
  | nil => simp [contract]
  | crLf rest ih =>
    rw [contract_cr_lf]
    exact iff_of_false (by simp [show lf ≠ cr by decide])
      (not_not.mpr (List.IsPrefix.isInfix ⟨rest, rfl⟩))
  | other b rest h ih =>
    have hnot : ¬[cr, lf] <+: b :: rest := by
      rw [List.cons_prefix_cons, singleton_isPrefix_iff]
      rintro ⟨rfl, hhead⟩
      exact h ⟨rfl, hhead⟩
    rw [contract_cons_of_not h, List.cons.injEq, ih, List.infix_cons_iff]
    simp [hnot]

/-- Each LF follows a CR, which may be the octet before the first one. -/
def LfsFollowCr (previous : Option UInt8) (x : Octets) : Prop :=
  ∀ before after, x = before ++ lf :: after → [cr] <:+ previous.toList ++ before

theorem lfsFollowCr_cons_iff {previous : Option UInt8} {b : UInt8} {rest : Octets} :
    LfsFollowCr previous (b :: rest) ↔
      (b = lf → previous = some cr) ∧ LfsFollowCr (some b) rest := by
  have hinner (before : Octets) :
      [cr] <:+ previous.toList ++ b :: before ↔ [cr] <:+ (some b).toList ++ before := by
    simp [singleton_isSuffix_iff]
  constructor
  · intro h
    refine ⟨?_, ?_⟩
    · rintro rfl
      have hfirst := h [] rest rfl
      cases previous <;> simp_all [singleton_isSuffix_iff]
    · rintro before after rfl
      exact (hinner before).mp (h (b :: before) after rfl)
  · rintro ⟨hfirst, hrest⟩ before after heq
    cases before with
    | nil =>
      obtain ⟨rfl, rfl⟩ := List.cons.inj heq
      simp [hfirst rfl]
    | cons d before =>
      obtain ⟨rfl, rfl⟩ := List.cons.inj heq
      exact (hinner before).mpr (hrest before after rfl)

theorem expandAfter_eq_self_iff (previous : Option UInt8) :
    expandAfter previous x = x ↔ LfsFollowCr previous x := by
  induction x generalizing previous with
  | nil => simp [expandAfter, LfsFollowCr]
  | cons b rest ih =>
    rw [lfsFollowCr_cons_iff]
    by_cases hbare : b = lf ∧ previous ≠ some cr
    · obtain ⟨rfl, hprevious⟩ := hbare
      rw [expandAfter_bare_lf hprevious]
      exact iff_of_false (by simp [show cr ≠ lf by decide]) fun h => hprevious (h.1 rfl)
    · have hfirst : b = lf → previous = some cr := by
        intro hb
        by_contra hprevious
        exact hbare ⟨hb, hprevious⟩
      rw [expandAfter_cons_of_not hbare, List.cons.injEq, ih]
      exact and_congr_left' (iff_of_true rfl hfirst)

/-- An octet before others adds a CR CR LF only if the others begin with CR LF. -/
theorem crCrLf_infix_iff (previous : Option UInt8) (x : Octets)
    (h : ¬(previous = some cr ∧ [cr, lf] <+: x)) :
    [cr, cr, lf] <:+: previous.toList ++ x ↔ [cr, cr, lf] <:+: x := by
  cases previous with
  | none => rfl
  | some b =>
    have hnot : ¬[cr, cr, lf] <+: b :: x := by
      rw [List.cons_prefix_cons]
      rintro ⟨rfl, hprefix⟩
      exact h ⟨rfl, hprefix⟩
    rw [Option.toList_some, List.singleton_append, List.infix_cons_iff]
    simp [hnot]

/-- The octet before is one that has not been left out, so if it is a CR, no LF follows it. -/
theorem expandAfter_contract_eq_self_iff (previous : Option UInt8) (y : Octets)
    (h : previous = some cr → y.head? ≠ some lf) :
    expandAfter previous (contract y) = y ↔
      expandAfter previous y = y ∧ ¬[cr, cr, lf] <:+: previous.toList ++ y := by
  induction y using contractInduction generalizing previous with
  | nil => cases previous <;> simp [contract, expandAfter, List.infix_cons_iff]
  | crLf rest ih =>
    rw [contract_cr_lf]
    by_cases hprevious : previous = some cr
    · -- After another CR the one that is left out is not put back.
      subst hprevious
      have hleft : expandAfter (some cr) (lf :: contract rest) ≠ cr :: lf :: rest := by
        simp [expandAfter, show lf ≠ cr by decide]
      have hinfix : [cr, cr, lf] <:+: (some cr).toList ++ cr :: lf :: rest :=
        List.IsPrefix.isInfix ⟨rest, rfl⟩
      exact iff_of_false hleft fun hright => hright.2 hinfix
    · have hrest := ih (some lf) (by simp [show lf ≠ cr by decide])
      have hpair : [cr, cr, lf] <:+: cr :: lf :: rest ↔ [cr, cr, lf] <:+: lf :: rest :=
        crCrLf_infix_iff (some cr) (lf :: rest) (by simp [show cr ≠ lf by decide])
      rw [expandAfter_bare_lf hprevious, expandAfter_cr_lf,
        crCrLf_infix_iff _ _ (by simp [hprevious]), hpair]
      simp only [List.cons.injEq, true_and]
      exact hrest
  | other b rest hcrLf ih =>
    rw [contract_cons_of_not hcrLf]
    by_cases hbare : b = lf ∧ previous ≠ some cr
    · obtain ⟨rfl, hprevious⟩ := hbare
      have hne (z : Octets) : cr :: lf :: z ≠ lf :: rest := by simp [show cr ≠ lf by decide]
      rw [expandAfter_bare_lf hprevious, expandAfter_bare_lf hprevious]
      exact iff_of_false (hne _) fun hright => hne _ hright.1
    · have hnext : some b = some cr → rest.head? ≠ some lf := by
        intro hb hhead
        exact hcrLf ⟨Option.some.inj hb, hhead⟩
      have hrest := ih (some b) hnext
      have hpair : ¬(previous = some cr ∧ [cr, lf] <+: b :: rest) := by
        rw [List.cons_prefix_cons, singleton_isPrefix_iff]
        rintro ⟨-, rfl, hhead⟩
        exact hcrLf ⟨rfl, hhead⟩
      rw [expandAfter_cons_of_not hbare, expandAfter_cons_of_not hbare, crCrLf_infix_iff _ _ hpair]
      simp only [List.cons.injEq, true_and]
      exact hrest

theorem expand_contract_eq_self_iff : expand (contract x) = x ↔
    (∀ before after, x = before ++ lf :: after → [cr] <:+ before) ∧ ¬[cr, cr, lf] <:+: x := by
  rw [expand, expandAfter_contract_eq_self_iff none x (by simp), expandAfter_eq_self_iff]
  rfl

end LineEnding

/-! ## Through the filters of a transfer -/

/-- Nothing that is put into the filter is refused. -/
def Filter.Accepting (f : Filter) : Prop := ∀ chunks, ∃ out, f.run chunks = .ok out

theorem Zlib.deflate_accepting : Zlib.deflate.Accepting := by
  intro chunks
  obtain ⟨outs, houts, -⟩ := Zlib.outputsFrom_deflate #[] chunks
  exact ⟨outs.flatten, (Filter.run_eq_ok_iff _ _ _).mpr ⟨outs, houts, rfl⟩⟩

namespace Filter

open Octets

theorem outbound_accepting {codec : Codec} (r : Representation) {m : Mode}
    (h : m = .compressed → codec.compressor.Accepting) : (outbound codec r m).Accepting := by
  intro chunks
  cases m with
  | stream =>
    cases r with
    | image => exact ⟨_, run_identity chunks⟩
    | ascii => exact ⟨_, LineEnding.run_encoder chunks⟩
  | compressed =>
    cases r with
    | image => exact h rfl chunks
    | ascii =>
      obtain ⟨mids, hmids, -⟩ := (run_eq_ok_iff _ _ _).mp (LineEnding.run_encoder chunks)
      obtain ⟨out, hout⟩ := h rfl mids
      exact ⟨out, run_andThen_of_ok hmids hout⟩

/-- What went out comes in as the inbound representation has it, however it is cut on either side. -/
theorem inbound_of_outbound {codec : Codec} {r : Representation} {m : Mode}
    (hcodec : m = .compressed → codec.Lossless) {chunks : List Octets} {wire : Octets}
    (hwire : (outbound codec r m).run chunks = .ok wire) {pieces : List Octets}
    (hpieces : pieces.flatten = wire) :
    (inbound codec r m).run pieces = .ok (r.inward chunks.flatten) := by
  -- Between the two line-ending filters are the octets that the outbound one gave.
  have hsame : r.inward (r.outward chunks.flatten) = r.inward chunks.flatten := by
    cases r with
    | image => rfl
    | ascii => exact LineEnding.contract_expand _
  rw [← hsame]
  cases m with
  | stream =>
    rw [← (outbound_stream_follows codec r).run_eq hwire, ← hpieces]
    cases r with
    | image => exact run_identity pieces
    | ascii => exact LineEnding.run_decoder pieces
  | compressed =>
    have hmid := outbound_compressed_decompresses (hcodec rfl) hwire hpieces
    cases r with
    | image => exact hmid
    | ascii =>
      obtain ⟨mids, hmids, hflat⟩ := (run_eq_ok_iff _ _ _).mp hmid
      rw [← hflat]
      exact run_andThen_of_ok hmids (LineEnding.run_decoder mids)

/-- The laws of the two line-ending filters, and what octets come to that go out through the filters
of a transfer and in again: images stay as they are, and the lines of a text are contracted.  Only
compression rests on the codec. -/
theorem round_trips (codec : Codec) :
    (∀ x, LineEnding.encoder.run [x] = .ok (LineEnding.expand x) ∧
        LineEnding.decoder.run [x] = .ok (LineEnding.contract x)) ∧
      (∀ x, LineEnding.contract (LineEnding.expand x) = LineEnding.contract x) ∧
      (∀ x, LineEnding.contract (LineEnding.expand x) = x ↔ ¬[cr, lf] <:+: x) ∧
      (∀ x, LineEnding.expand (LineEnding.expand x) = LineEnding.expand x) ∧
      (∀ y, LineEnding.expand (LineEnding.contract y) = y ↔
        (∀ before after, y = before ++ lf :: after → [cr] <:+ before) ∧ ¬[cr, cr, lf] <:+: y) ∧
      ∀ r m, (m = .compressed → codec.compressor.Accepting ∧ codec.Lossless) → ∀ chunks, ∃ wire,
        (outbound codec r m).run chunks = .ok wire ∧
          ∀ pieces : List Octets, pieces.flatten = wire →
            (inbound codec r m).run pieces = .ok (r.inward chunks.flatten) := by
  refine ⟨?_, LineEnding.contract_expand, ?_, LineEnding.expand_expand,
    LineEnding.expand_contract_eq_self_iff, ?_⟩
  · intro x
    rw [LineEnding.run_encoder, LineEnding.run_decoder, List.flatten_singleton]
    exact ⟨rfl, rfl⟩
  · intro x
    rw [LineEnding.contract_expand, LineEnding.contract_eq_self_iff]
  · intro r m hcodec chunks
    obtain ⟨wire, hwire⟩ := outbound_accepting r (fun hm => (hcodec hm).1) chunks
    refine ⟨wire, hwire, ?_⟩
    intro pieces hpieces
    exact inbound_of_outbound (fun hm => (hcodec hm).2) hwire hpieces

/-- Two compressed lines, of which the first ends with CR LF; the stream is cut after five octets. -/
theorem round_trips_lines :
    (zlib.compressor.Accepting ∧ zlib.Lossless) ∧ ∃ wire,
      (outbound zlib .ascii .compressed).run [[97, 13], [], [10, 98, 10]] = .ok wire ∧
        (inbound zlib .ascii .compressed).run [wire.take 5, wire.drop 5] =
          .ok [97, 10, 98, 10] := by
  obtain ⟨-, -, -, -, -, hfilters⟩ := round_trips zlib
  obtain ⟨wire, hwire, hback⟩ := hfilters .ascii .compressed
    (fun _ => ⟨Zlib.deflate_accepting, Zlib.lossless⟩) [[97, 13], [], [10, 98, 10]]
  refine ⟨⟨Zlib.deflate_accepting, Zlib.lossless⟩, wire, hwire, ?_⟩
  exact hback [wire.take 5, wire.drop 5] (by simp)

end Filter

end FaxClient
