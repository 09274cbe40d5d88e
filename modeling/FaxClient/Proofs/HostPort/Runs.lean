import FaxClient.Proofs.HostPort.Group
import FaxClient.Proofs.Text.Span

/-!
# Runs of digits and commas

A text falls into runs of digits and commas, each as long as possible, and the characters between
them.  Each run is tried from its first digit on and tried once, so what is found in a text is the
endpoint of the first run that is a group when the commas that lead it are dropped.
-/

namespace FaxClient.HostPort

/-- The runs of digits and commas in a text, from left to right, without the commas that lead
them. -/
def runs (chars : List Char) : List (List Char) :=
  ((chars.splitOnP (!inGroup ·)).filter (!·.isEmpty)).map (·.dropWhile (· == ','))

/-! ## The search, run by run -/

/-- A text is nothing, or goes on after a character that is no digit, or goes on after a run that
begins with a digit. -/
theorem runInduction {motive : List Char → Prop} (nil : motive [])
    (skip : ∀ c rest, isDigit c = false → motive rest → motive (c :: rest))
    (run : ∀ c run rest, isDigit c = true → (∀ d ∈ run, inGroup d = true) →
      (∀ d ∈ rest.head?, inGroup d = false) → motive rest → motive ((c :: run) ++ rest))
    (chars : List Char) : motive chars := by
  induction hn : chars.length using Nat.strong_induction_on generalizing chars with
  | _ n ih =>
    cases chars with
    | nil => exact nil
    | cons c rest =>
      cases hc : isDigit c with
      | false => exact skip c rest hc (ih _ (by simp [← hn]) rest rfl)
      | true =>
        obtain ⟨digits, rest, rfl, hdigits, hrest⟩ := Text.exists_span inGroup rest
        have hlt : rest.length < n := by
          rw [← hn, List.length_cons, List.length_append]
          omega
        exact run c digits rest hc hdigits hrest (ih _ hlt rest rfl)

@[simp] theorem find?_nil : find? [] = none := by
  rw [find?]

theorem find?_skip {c : Char} (h : isDigit c = false) (rest : List Char) :
    find? (c :: rest) = find? rest := by
  rw [find?, h]
  rfl

theorem find?_run {c : Char} {run rest : List Char} (hc : isDigit c = true)
    (hrun : ∀ d ∈ run, inGroup d = true) (hrest : ∀ d ∈ rest.head?, inGroup d = false) :
    find? ((c :: run) ++ rest) = (group? (c :: run)).or (find? rest) := by
  rw [List.cons_append, find?, if_pos hc, Text.takeWhile_append_of_head hrun hrest,
    Text.dropWhile_append_of_head hrun hrest]
  cases group? (c :: run) <;> rfl

/-! ## The runs of a text -/

theorem runs_separator {c : Char} (h : inGroup c = false) (rest : List Char) :
    runs (c :: rest) = runs rest := by
  simp [runs, List.splitOnP_cons_eq_if_modifyHead, h]

theorem runs_append {run rest : List Char} (hne : run ≠ []) (hrun : ∀ d ∈ run, inGroup d = true)
    (hrest : ∀ d ∈ rest.head?, inGroup d = false) :
    runs (run ++ rest) = run.dropWhile (· == ',') :: runs rest := by
  have hnone : ∀ d ∈ run, (!inGroup d) = false := by simpa using hrun
  cases rest with
  | nil => simp [runs, List.splitOnP_eq_singleton hnone, hne]
  | cons s rest =>
    have hs : inGroup s = false := hrest s rfl
    rw [runs_separator hs, runs,
      List.splitOnP_append_cons_of_forall_mem hnone s (by simp [hs]) rest]
    simp [runs, hne]

/-- A comma that leads a run changes nothing: alone, it is no group. -/
theorem findSome?_runs_comma (rest : List Char) :
    (runs (',' :: rest)).findSome? group? = (runs rest).findSome? group? := by
  obtain ⟨run, rest, rfl, hrun, hrest⟩ := Text.exists_span inGroup rest
  have hcomma : ∀ d ∈ ',' :: run, inGroup d = true := List.forall_mem_cons.mpr ⟨by decide, hrun⟩
  rw [← List.cons_append, runs_append (by simp) hcomma hrest]
  cases run with
  | nil => rfl
  | cons d run =>
    rw [runs_append (by simp) hrun hrest]
    rfl

/-- What is found is the endpoint of the first run that is a group. -/
theorem find?_eq_findSome?_runs (chars : List Char) :
    find? chars = (runs chars).findSome? group? := by
  induction chars using runInduction with
  | nil => simp [runs]
  | skip c rest hc ih =>
    rw [find?_skip hc, ih]
    cases hgroup : inGroup c with
    | false => rw [runs_separator hgroup]
    | true =>
      obtain rfl : c = ',' := by simpa [inGroup, hc] using hgroup
      exact (findSome?_runs_comma rest).symm
  | run c run rest hc hrun hrest ih =>
    have hall : ∀ d ∈ c :: run, inGroup d = true :=
      List.forall_mem_cons.mpr ⟨by simp [inGroup, hc], hrun⟩
    have hne : c ≠ ',' := by
      rintro rfl
      exact absurd hc (by decide)
    rw [find?_run hc hrun hrest, runs_append (by simp) hall hrest, ih, List.findSome?_cons,
      List.dropWhile_cons_of_neg (by simpa using hne)]
    cases group? (c :: run) <;> rfl

theorem find?_eq_some_iff {chars : List Char} {e : Endpoint} :
    find? chars = some e ↔ ∃ earlier run later, runs chars = earlier ++ run :: later ∧
      Writes run e ∧ ∀ other ∈ earlier, ∀ e, ¬Writes other e := by
  simp only [find?_eq_findSome?_runs, List.findSome?_eq_some_iff, group?_eq_some_iff,
    group?_eq_none_iff]

theorem find?_eq_none_iff {chars : List Char} :
    find? chars = none ↔ ∀ run ∈ runs chars, ∀ e, ¬Writes run e := by
  simp only [find?_eq_findSome?_runs, List.findSome?_eq_none_iff, group?_eq_none_iff]

theorem parse_eq_ok_iff {text : String} {e : Endpoint} :
    parse text = .ok e ↔ find? text.toList = some e := by
  unfold parse
  cases find? text.toList <;> simp

end FaxClient.HostPort
