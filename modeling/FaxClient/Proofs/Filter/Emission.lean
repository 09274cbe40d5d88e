import FaxClient.Filter
import Mathlib

/-!
# What comes out of a filter

Chunks are pushed into a filter one after the other, until one is refused.  What has come out of a
filter by then is a beginning of what would come out if more chunks were pushed.  A filter follows a
function on octets if what comes out of it on the way is a beginning of what the function gives, and
what has come out at the end is all of that, whatever the chunks are.
-/

namespace FaxClient.Filter

theorem bind_eq_ok_iff {ε α β : Type} {x : Except ε α} {next : α → Except ε β} {b : β} :
    x >>= next = .ok b ↔ ∃ a, x = .ok a ∧ next a = .ok b := by
  cases x with
  | error e => simp [bind, Except.bind]
  | ok a => simp [bind, Except.bind]

/-- What comes out for each chunk, up to the first that is refused. -/
def emissions (f : Filter) : f.State → List Octets → List Octets
  | _, [] => []
  | s, chunk :: chunks =>
    match f.push s chunk with
    | .error _ => []
    | .ok (out, s) => out :: f.emissions s chunks

def emittedFrom (f : Filter) (s : f.State) (chunks : List Octets) : Octets :=
  (f.emissions s chunks).flatten

def emitted (f : Filter) (chunks : List Octets) : Octets := f.emittedFrom f.start chunks

/-- What comes out for each chunk, and at the end. -/
def outputsFrom (f : Filter) (s : f.State) (chunks : List Octets) :
    Except Fault (List Octets) := do
  let (outs, s) ← f.pushAll s chunks
  let (last, _) ← f.finish s
  return outs ++ [last]

theorem outputs_eq_outputsFrom (f : Filter) (chunks : List Octets) :
    f.outputs chunks = f.outputsFrom f.start chunks := rfl

theorem run_eq_ok_iff (f : Filter) (chunks : List Octets) (out : Octets) :
    f.run chunks = .ok out ↔
      ∃ outs, f.outputsFrom f.start chunks = .ok outs ∧ outs.flatten = out := by
  rw [run, outputs_eq_outputsFrom]
  cases f.outputsFrom f.start chunks with
  | error fault => simp [Except.map]
  | ok outs => simp [Except.map]

section

variable {f g : Filter} {s : f.State} {t : g.State} {chunk : Octets} {chunks : List Octets}

@[simp] theorem emissions_nil : f.emissions s [] = [] := rfl

@[simp] theorem emittedFrom_nil : f.emittedFrom s [] = [] := rfl

theorem emissions_cons_of_error {fault : Fault} (h : f.push s chunk = .error fault) :
    f.emissions s (chunk :: chunks) = [] := by
  simp [emissions, h]

theorem emissions_cons_of_ok {out : Octets} {s' : f.State} (h : f.push s chunk = .ok (out, s')) :
    f.emissions s (chunk :: chunks) = out :: f.emissions s' chunks := by
  simp [emissions, h]

theorem emittedFrom_cons_of_error {fault : Fault} (h : f.push s chunk = .error fault) :
    f.emittedFrom s (chunk :: chunks) = [] := by
  simp [emittedFrom, emissions_cons_of_error h]

theorem emittedFrom_cons_of_ok {out : Octets} {s' : f.State} (h : f.push s chunk = .ok (out, s')) :
    f.emittedFrom s (chunk :: chunks) = out ++ f.emittedFrom s' chunks := by
  simp [emittedFrom, emissions_cons_of_ok h]

theorem emissions_prefix_append (more : List Octets) :
    f.emissions s chunks <+: f.emissions s (chunks ++ more) := by
  induction chunks generalizing s with
  | nil => exact List.nil_prefix
  | cons chunk chunks ih =>
    rw [List.cons_append]
    cases h : f.push s chunk with
    | error fault => simp [emissions_cons_of_error h]
    | ok pushed =>
      obtain ⟨out, s'⟩ := pushed
      rw [emissions_cons_of_ok h, emissions_cons_of_ok h]
      exact (List.prefix_cons_inj out).mpr ih

theorem emittedFrom_mono {more : List Octets} (h : chunks <+: more) :
    f.emittedFrom s chunks <+: f.emittedFrom s more := by
  obtain ⟨rest, rfl⟩ := h
  exact (emissions_prefix_append rest).flatten

theorem pushAll_cons_eq_ok_iff {outs : List Octets} {s' : f.State} :
    f.pushAll s (chunk :: chunks) = .ok (outs, s') ↔
      ∃ out t rest, f.push s chunk = .ok (out, t) ∧ f.pushAll t chunks = .ok (rest, s') ∧
        outs = out :: rest := by
  rw [pushAll, bind_eq_ok_iff]
  constructor
  · rintro ⟨⟨out, t⟩, hpush, hrest⟩
    obtain ⟨⟨rest, s''⟩, hall, heq⟩ := bind_eq_ok_iff.mp hrest
    cases heq
    exact ⟨out, t, rest, hpush, hall, rfl⟩
  · rintro ⟨out, t, rest, hpush, hall, rfl⟩
    exact ⟨(out, t), hpush, bind_eq_ok_iff.mpr ⟨(rest, s'), hall, rfl⟩⟩

theorem outputsFrom_nil_eq_ok_iff {outs : List Octets} :
    f.outputsFrom s [] = .ok outs ↔ ∃ last s', f.finish s = .ok (last, s') ∧ outs = [last] := by
  simp only [outputsFrom, pushAll, bind_eq_ok_iff, pure, Except.pure, Except.ok.injEq,
    Prod.exists]
  constructor
  · rintro ⟨outs, s', ⟨rfl, rfl⟩, last, s', hfinish, rfl⟩
    exact ⟨last, s', hfinish, rfl⟩
  · rintro ⟨last, s', hfinish, rfl⟩
    exact ⟨[], s, by simp, last, s', hfinish, rfl⟩

theorem outputsFrom_cons_eq_ok_iff {outs : List Octets} :
    f.outputsFrom s (chunk :: chunks) = .ok outs ↔
      ∃ out s' rest, f.push s chunk = .ok (out, s') ∧ f.outputsFrom s' chunks = .ok rest ∧
        outs = out :: rest := by
  simp only [outputsFrom, bind_eq_ok_iff, pure, Except.pure, Except.ok.injEq, Prod.exists,
    pushAll_cons_eq_ok_iff]
  constructor
  · rintro ⟨outs, t, ⟨out, s', rest, hpush, hall, rfl⟩, last, t', hfinish, rfl⟩
    exact ⟨out, s', rest ++ [last], hpush, ⟨rest, t, hall, last, t', hfinish, rfl⟩, rfl⟩
  · rintro ⟨out, s', rest, hpush, ⟨outs, t, hall, last, t', hfinish, rfl⟩, rfl⟩
    exact ⟨out :: outs, t, ⟨out, s', outs, hpush, hall, rfl⟩, last, t', hfinish, rfl⟩

/-! ## Filters one after the other -/

theorem push_andThen_eq_ok_iff {out : Octets} {s' : f.State} {t' : g.State} :
    (f.andThen g).push (s, t) chunk = .ok (out, (s', t')) ↔
      ∃ mid, f.push s chunk = .ok (mid, s') ∧ g.push t mid = .ok (out, t') := by
  simp only [andThen, bind_eq_ok_iff, pure, Except.pure, Except.ok.injEq, Prod.exists,
    Prod.mk.injEq]
  constructor
  · rintro ⟨mid, s', hf, out, t', hg, rfl, rfl, rfl⟩
    exact ⟨mid, hf, hg⟩
  · rintro ⟨mid, hf, hg⟩
    exact ⟨mid, s', hf, out, t', hg, rfl, rfl, rfl⟩

theorem emissions_andThen : (f.andThen g).emissions (s, t) chunks =
    g.emissions t (f.emissions s chunks) := by
  induction chunks generalizing s t with
  | nil => rfl
  | cons chunk chunks ih =>
    cases hf : f.push s chunk with
    | error fault =>
      have hboth : (f.andThen g).push (s, t) chunk = .error fault := by
        simp [andThen, hf, bind, Except.bind]
      rw [emissions_cons_of_error hf, emissions_cons_of_error hboth, emissions_nil]
    | ok pushed =>
      obtain ⟨mid, s'⟩ := pushed
      rw [emissions_cons_of_ok hf]
      cases hg : g.push t mid with
      | error fault =>
        have hboth : (f.andThen g).push (s, t) chunk = .error fault := by
          simp [andThen, hf, hg, bind, Except.bind]
        rw [emissions_cons_of_error hg, emissions_cons_of_error hboth]
      | ok pushed =>
        obtain ⟨out, t'⟩ := pushed
        have hboth : (f.andThen g).push (s, t) chunk = .ok (out, (s', t')) :=
          push_andThen_eq_ok_iff.mpr ⟨mid, hf, hg⟩
        rw [emissions_cons_of_ok hg, emissions_cons_of_ok hboth, ih]

/-- What comes out at the end of both is what comes out of the second for what came out of the
first.  The last of that is pushed and finished in one, so the pieces may be cut otherwise. -/
theorem outputsFrom_andThen {outs : List Octets}
    (h : (f.andThen g).outputsFrom (s, t) chunks = .ok outs) :
    ∃ mids ends, f.outputsFrom s chunks = .ok mids ∧ g.outputsFrom t mids = .ok ends ∧
      ends.flatten = outs.flatten := by
  induction chunks generalizing s t outs with
  | nil =>
    obtain ⟨last, u, hfinish, rfl⟩ := outputsFrom_nil_eq_ok_iff.mp h
    simp only [andThen, bind_eq_ok_iff, pure, Except.pure, Except.ok.injEq,
      Prod.exists] at hfinish
    obtain ⟨mid, s', hf, out, t', hg, tail, t'', hlast, heq⟩ := hfinish
    cases heq
    refine ⟨[mid], [out, tail], outputsFrom_nil_eq_ok_iff.mpr ⟨mid, s', hf, rfl⟩, ?_, by simp⟩
    have htail : g.outputsFrom t' [] = .ok [tail] :=
      outputsFrom_nil_eq_ok_iff.mpr ⟨tail, t'', hlast, rfl⟩
    exact outputsFrom_cons_eq_ok_iff.mpr ⟨out, t', [tail], hg, htail, rfl⟩
  | cons chunk chunks ih =>
    obtain ⟨out, ⟨s', t'⟩, rest, hpush, hrest, rfl⟩ := outputsFrom_cons_eq_ok_iff.mp h
    obtain ⟨mid, hf, hg⟩ := push_andThen_eq_ok_iff.mp hpush
    obtain ⟨mids, ends, hmids, hends, hflat⟩ := ih hrest
    refine ⟨mid :: mids, out :: ends, ?_, ?_, by simp [hflat]⟩
    · exact outputsFrom_cons_eq_ok_iff.mpr ⟨mid, s', mids, hf, hmids, rfl⟩
    · exact outputsFrom_cons_eq_ok_iff.mpr ⟨out, t', ends, hg, hends, rfl⟩

theorem outputsFrom_andThen_of_ok {mids ends : List Octets}
    (hf : f.outputsFrom s chunks = .ok mids) (hg : g.outputsFrom t mids = .ok ends) :
    ∃ outs, (f.andThen g).outputsFrom (s, t) chunks = .ok outs ∧ outs.flatten = ends.flatten := by
  induction chunks generalizing s t mids ends with
  | nil =>
    obtain ⟨mid, s', hfinish, rfl⟩ := outputsFrom_nil_eq_ok_iff.mp hf
    obtain ⟨out, t', rest, hpush, hrest, rfl⟩ := outputsFrom_cons_eq_ok_iff.mp hg
    obtain ⟨tail, t'', hlast, rfl⟩ := outputsFrom_nil_eq_ok_iff.mp hrest
    have hboth : (f.andThen g).finish (s, t) = .ok (out ++ tail, (s', t'')) := by
      simp only [andThen, bind_eq_ok_iff, pure, Except.pure, Except.ok.injEq, Prod.exists]
      exact ⟨mid, s', hfinish, out, t', hpush, tail, t'', hlast, rfl⟩
    exact ⟨[out ++ tail], outputsFrom_nil_eq_ok_iff.mpr ⟨_, _, hboth, rfl⟩, by simp⟩
  | cons chunk chunks ih =>
    obtain ⟨mid, s', mids, hpush, hmids, rfl⟩ := outputsFrom_cons_eq_ok_iff.mp hf
    obtain ⟨out, t', ends, hout, hends, rfl⟩ := outputsFrom_cons_eq_ok_iff.mp hg
    obtain ⟨outs, houts, hflat⟩ := ih hmids hends
    have hboth : (f.andThen g).push (s, t) chunk = .ok (out, (s', t')) :=
      push_andThen_eq_ok_iff.mpr ⟨mid, hpush, hout⟩
    refine ⟨out :: outs, ?_, by simp [hflat]⟩
    exact outputsFrom_cons_eq_ok_iff.mpr ⟨out, (s', t'), outs, hboth, houts, rfl⟩

theorem run_andThen_of_ok {mids : List Octets} {out : Octets}
    (hf : f.outputsFrom f.start chunks = .ok mids) (hg : g.run mids = .ok out) :
    (f.andThen g).run chunks = .ok out := by
  obtain ⟨ends, hends, rfl⟩ := (run_eq_ok_iff _ _ _).mp hg
  exact (run_eq_ok_iff _ _ _).mpr (outputsFrom_andThen_of_ok hf hends)

theorem run_andThen {out : Octets} (h : (f.andThen g).run chunks = .ok out) :
    ∃ mids, f.run chunks = .ok mids.flatten ∧ g.run mids = .ok out := by
  obtain ⟨outs, houts, rfl⟩ := (run_eq_ok_iff _ _ _).mp h
  obtain ⟨mids, ends, hmids, hends, hflat⟩ := outputsFrom_andThen houts
  refine ⟨mids, (run_eq_ok_iff _ _ _).mpr ⟨mids, hmids, rfl⟩, ?_⟩
  exact (run_eq_ok_iff _ _ _).mpr ⟨ends, hends, hflat⟩

end

/-! ## Filters that follow a function -/

/-- However octets are cut into chunks, what comes out on the way is a beginning of what the
function gives for them, and what has come out at the end is all of it. -/
structure Follows (f : Filter) (image : Octets → Octets) : Prop where
  emitted_isPrefix : ∀ chunks, f.emitted chunks <+: image chunks.flatten
  run_eq : ∀ {chunks out}, f.run chunks = .ok out → out = image chunks.flatten

namespace Follows

variable {f g : Filter} {image image' : Octets → Octets}

/-- What has come out stays a beginning of what is right when more octets come. -/
theorem emitted_isPrefix_append (h : f.Follows image) (chunks : List Octets) (more : Octets) :
    f.emitted chunks <+: image (chunks.flatten ++ more) := by
  have hall := h.emitted_isPrefix (chunks ++ [more])
  rw [List.flatten_append, List.flatten_singleton] at hall
  exact (emittedFrom_mono (List.prefix_append chunks [more])).trans hall

theorem andThen (hf : f.Follows image) (hg : g.Follows image') :
    (f.andThen g).Follows (image' ∘ image) where
  emitted_isPrefix := by
    intro chunks
    have heq : (f.andThen g).emitted chunks = g.emitted (f.emissions f.start chunks) :=
      congrArg List.flatten emissions_andThen
    -- What the first has given is only a beginning; the second may hold back less at its end.
    obtain ⟨more, hmore⟩ : (f.emissions f.start chunks).flatten <+: image chunks.flatten :=
      hf.emitted_isPrefix chunks
    rw [heq, Function.comp_apply, ← hmore]
    exact hg.emitted_isPrefix_append _ more
  run_eq := by
    intro chunks out h
    obtain ⟨mids, hmids, hout⟩ := run_andThen h
    rw [hg.run_eq hout, hf.run_eq hmids, Function.comp_apply]

end Follows

theorem emissions_identity (s : identity.State) (chunks : List Octets) :
    identity.emissions s chunks = chunks := by
  induction chunks with
  | nil => rfl
  | cons chunk chunks ih =>
    rw [emissions_cons_of_ok (show identity.push s chunk = .ok (chunk, s) from rfl), ih]

theorem outputsFrom_identity (s : identity.State) (chunks : List Octets) :
    identity.outputsFrom s chunks = .ok (chunks ++ [[]]) := by
  induction chunks with
  | nil => rfl
  | cons chunk chunks ih => exact outputsFrom_cons_eq_ok_iff.mpr ⟨chunk, s, _, rfl, ih, rfl⟩

theorem run_identity (chunks : List Octets) : identity.run chunks = .ok chunks.flatten :=
  (run_eq_ok_iff _ _ _).mpr ⟨_, outputsFrom_identity identity.start chunks, by simp⟩

theorem identity_follows : identity.Follows id where
  emitted_isPrefix := by
    intro chunks
    have hemitted : identity.emitted chunks = chunks.flatten :=
      congrArg List.flatten (emissions_identity identity.start chunks)
    rw [hemitted, id]
  run_eq := by
    intro chunks out h
    exact Except.ok.inj (h.symm.trans (run_identity chunks))

end FaxClient.Filter
