import FaxClient.Filter.LineEnding
import FaxClient.Proofs.Filter.Emission

/-!
# What line-ending filters give

Both filters go through the octets one by one and remember whether the last one was a CR, so what
comes out does not depend on where the chunks end.  Outbound nothing is held back.  Inbound the CR
at the end is held back until the next octet, or the end, tells whether it stays.
-/

namespace FaxClient.LineEnding

open Octets

/-- What comes out of a step for each octet, where `before` tells whether the octet before the first
one was a CR. -/
def passed (step : Bool → UInt8 → Octets) : Bool → Octets → Octets
  | _, [] => []
  | before, b :: rest => step before b ++ passed step (b == cr) rest

/-- Whether the last octet is a CR. -/
def endsCr : Bool → Octets → Bool
  | before, [] => before
  | _, b :: rest => endsCr (b == cr) rest

theorem pass_eq (step : Bool → UInt8 → Octets) (before : Bool) (chunk : Octets) :
    pass step before chunk = (passed step before chunk, endsCr before chunk) := by
  have hfold (out : Array UInt8) (before : Bool) :
      chunk.foldl (fun (acc : Array UInt8 × Bool) b => (emit acc.1 (step acc.2 b), b == cr))
        (out, before) = (emit out (passed step before chunk), endsCr before chunk) := by
    induction chunk generalizing out before with
    | nil => rfl
    | cons b rest ih =>
      have hemit : emit (emit out (step before b)) (passed step (b == cr) rest) =
          emit out (passed step before (b :: rest)) := by
        apply Array.toList_inj.mp
        simp [toList_emit, passed]
      rw [List.foldl_cons, ih, hemit, endsCr]
  unfold pass
  rw [hfold]
  simp [toList_emit]

theorem passed_append (step : Bool → UInt8 → Octets) (before : Bool) (x y : Octets) :
    passed step before (x ++ y) = passed step before x ++ passed step (endsCr before x) y := by
  induction x generalizing before with
  | nil => rfl
  | cons b rest ih => simp [passed, endsCr, ih]

theorem endsCr_append (before : Bool) (x y : Octets) :
    endsCr before (x ++ y) = endsCr (endsCr before x) y := by
  induction x generalizing before with
  | nil => rfl
  | cons b rest ih => exact ih _

/-- The filter of a step, and of what it gives at the end. -/
def passing (step : Bool → UInt8 → Octets) (last : Bool → Octets × Bool) : Filter where
  State := Bool
  start := false
  push := fun s chunk => .ok (pass step s chunk)
  finish := fun s => .ok (last s)

theorem encoder_eq_passing : encoder = passing expandStep fun s => ([], s) := rfl

theorem decoder_eq_passing :
    decoder = passing contractStep fun s => (if s then [cr] else [], false) := rfl

section

variable {step : Bool → UInt8 → Octets} {last : Bool → Octets × Bool}

theorem push_passing (before : Bool) (chunk : Octets) :
    (passing step last).push before chunk =
      .ok (passed step before chunk, endsCr before chunk) :=
  congrArg Except.ok (pass_eq step before chunk)

theorem emittedFrom_passing (before : Bool) (chunks : List Octets) :
    (passing step last).emittedFrom before chunks = passed step before chunks.flatten := by
  induction chunks generalizing before with
  | nil => rfl
  | cons chunk chunks ih =>
    rw [Filter.emittedFrom_cons_of_ok (push_passing before chunk), ih, List.flatten_cons,
      passed_append]

theorem emitted_passing (chunks : List Octets) :
    (passing step last).emitted chunks = passed step false chunks.flatten :=
  emittedFrom_passing false chunks

theorem outputsFrom_passing (before : Bool) (chunks : List Octets) :
    ∃ outs, (passing step last).outputsFrom before chunks = .ok outs ∧
      outs.flatten =
        passed step before chunks.flatten ++ (last (endsCr before chunks.flatten)).1 := by
  induction chunks generalizing before with
  | nil =>
    refine ⟨[(last before).1], ?_, by simp [passed, endsCr]⟩
    exact Filter.outputsFrom_nil_eq_ok_iff.mpr ⟨_, (last before).2, rfl, rfl⟩
  | cons chunk chunks ih =>
    obtain ⟨rest, hrest, hflat⟩ := ih (endsCr before chunk)
    refine ⟨passed step before chunk :: rest, ?_, ?_⟩
    · exact Filter.outputsFrom_cons_eq_ok_iff.mpr
        ⟨_, _, rest, push_passing before chunk, hrest, rfl⟩
    · calc (passed step before chunk :: rest).flatten
        _ = passed step before chunk ++ (passed step (endsCr before chunk) chunks.flatten ++
            (last (endsCr (endsCr before chunk) chunks.flatten)).1) := by
          rw [List.flatten_cons, hflat]
        _ = passed step before (chunk :: chunks).flatten ++
            (last (endsCr before (chunk :: chunks).flatten)).1 := by
          rw [List.flatten_cons, passed_append, endsCr_append, List.append_assoc]

theorem run_passing (chunks : List Octets) : (passing step last).run chunks =
    .ok (passed step false chunks.flatten ++ (last (endsCr false chunks.flatten)).1) := by
  obtain ⟨outs, houts, hflat⟩ := @outputsFrom_passing step last false chunks
  exact (Filter.run_eq_ok_iff _ _ _).mpr ⟨outs, houts, hflat⟩

end

/-! ## Outbound -/

theorem passed_expandStep (previous : Option UInt8) (x : Octets) :
    passed expandStep (previous == some cr) x = expandAfter previous x := by
  induction x generalizing previous with
  | nil => rfl
  | cons b rest ih =>
    have hrest : passed expandStep (b == cr) rest = expandAfter (some b) rest := ih (some b)
    rw [passed, expandAfter, hrest, expandStep]
    by_cases hbare : b = lf ∧ previous ≠ some cr
    · obtain ⟨rfl, hprevious⟩ := hbare
      simp [hprevious]
    · by_cases hb : b = lf
      · have hprevious : previous = some cr := by
          by_contra hne
          exact hbare ⟨hb, hne⟩
        simp [hb, hprevious]
      · simp [hb]

theorem emitted_encoder (chunks : List Octets) :
    encoder.emitted chunks = expand chunks.flatten := by
  rw [encoder_eq_passing, emitted_passing]
  exact passed_expandStep none _

theorem run_encoder (chunks : List Octets) : encoder.run chunks = .ok (expand chunks.flatten) := by
  rw [encoder_eq_passing, run_passing, List.append_nil]
  exact congrArg Except.ok (passed_expandStep none _)

theorem encoder_follows : encoder.Follows expand where
  emitted_isPrefix := by
    intro chunks
    rw [emitted_encoder]
  run_eq := by
    intro chunks out h
    exact Except.ok.inj (h.symm.trans (run_encoder chunks))

/-! ## Inbound -/

/-- What has come out, with the CR that is held back, is the reference for what went in. -/
theorem passed_contractStep (waiting : Bool) (x : Octets) :
    passed contractStep waiting x ++ (if endsCr waiting x then [cr] else []) =
      contract ((if waiting then [cr] else []) ++ x) := by
  induction x generalizing waiting with
  | nil => cases waiting <;> rfl
  | cons b rest ih =>
    rw [passed, endsCr, List.append_assoc, ih, contractStep]
    by_cases hcr : b = cr
    · subst hcr
      cases waiting with
      | false => simp
      | true => simp [contract, show cr ≠ lf by decide]
    · by_cases hlf : b = lf
      · subst hlf
        cases waiting <;> simp [contract, show lf ≠ cr by decide]
      · cases waiting <;> simp [contract, hcr, hlf]

theorem emitted_decoder (chunks : List Octets) :
    decoder.emitted chunks ++ (if endsCr false chunks.flatten then [cr] else []) =
      contract chunks.flatten := by
  rw [decoder_eq_passing, emitted_passing]
  exact passed_contractStep false _

theorem run_decoder (chunks : List Octets) :
    decoder.run chunks = .ok (contract chunks.flatten) := by
  rw [decoder_eq_passing, run_passing]
  exact congrArg Except.ok (passed_contractStep false _)

theorem decoder_follows : decoder.Follows contract where
  emitted_isPrefix := by
    intro chunks
    exact ⟨_, emitted_decoder chunks⟩
  run_eq := by
    intro chunks out h
    exact Except.ok.inj (h.symm.trans (run_decoder chunks))

end FaxClient.LineEnding
