import FaxClient.Reply.Reader
import Mathlib

/-!
# Replies and the octets after them

What has been read stays as it is when more octets arrive: a complete line, a complete reply, and a
first line that is malformed.  Conversely, a reply that ends before the octets that arrived later
was there without them.  What is neither a reply nor malformed is unfinished, and only then does the
length of the buffer matter.
-/

namespace FaxClient.Reply

open Octets

/-! ## The first line -/

theorem firstLine?_append_lf {raw : Octets} (hraw : lf ∉ raw) (rest : Octets) :
    firstLine? (raw ++ lf :: rest) = some (chomp raw, rest) := by
  have hall : ∀ b ∈ raw, (b != lf) = true := by
    intro b hb
    simpa using ne_of_mem_of_not_mem hb hraw
  simp [firstLine?, List.takeWhile_append_of_pos hall, List.dropWhile_append_of_pos hall]

theorem firstLine?_eq_none_iff {buffer : Octets} : firstLine? buffer = none ↔ lf ∉ buffer := by
  constructor
  · intro h hlf
    obtain ⟨raw, rest, rfl, hraw⟩ := List.eq_append_cons_of_mem hlf
    simp [firstLine?_append_lf hraw] at h
  · intro h
    have hall : buffer.dropWhile (· != lf) = [] := by
      rw [List.dropWhile_eq_nil_iff]
      intro b hb
      simpa using ne_of_mem_of_not_mem hb h
    simp [firstLine?, hall]

/-- The first line is what stands before the first line feed, without a carriage return at its
end. -/
theorem firstLine?_eq_some_iff {buffer line rest : Octets} :
    firstLine? buffer = some (line, rest) ↔
      ∃ raw, lf ∉ raw ∧ buffer = raw ++ lf :: rest ∧ chomp raw = line := by
  constructor
  · intro h
    have hlf : lf ∈ buffer := by
      by_contra hn
      simp [firstLine?_eq_none_iff.mpr hn] at h
    obtain ⟨raw, left, rfl, hraw⟩ := List.eq_append_cons_of_mem hlf
    rw [firstLine?_append_lf hraw] at h
    simp only [Option.some.injEq, Prod.mk.injEq] at h
    obtain ⟨hline, rfl⟩ := h
    exact ⟨raw, hraw, rfl, hline⟩
  · rintro ⟨raw, hraw, rfl, rfl⟩
    exact firstLine?_append_lf hraw rest

theorem firstLine?_append {buffer line rest : Octets} (h : firstLine? buffer = some (line, rest))
    (more : Octets) : firstLine? (buffer ++ more) = some (line, rest ++ more) := by
  obtain ⟨raw, hraw, rfl, hline⟩ := firstLine?_eq_some_iff.mp h
  exact firstLine?_eq_some_iff.mpr ⟨raw, hraw, by simp, hline⟩

theorem firstLine?_of_append {buffer more line rest : Octets}
    (h : firstLine? (buffer ++ more) = some (line, rest)) (hlen : more.length ≤ rest.length) :
    ∃ left, firstLine? buffer = some (line, left) ∧ rest = left ++ more := by
  obtain ⟨raw, hraw, heq, hline⟩ := firstLine?_eq_some_iff.mp h
  -- The line feed stands before `more`, because all of `more` is left over.
  rcases List.append_eq_append_iff.mp heq with ⟨as, rfl, hmore⟩ | ⟨bs, rfl, hrest⟩
  · have := congrArg List.length hmore
    simp only [List.length_append, List.length_cons] at this
    omega
  · cases bs with
    | nil =>
      have := congrArg List.length hrest
      simp only [List.length_cons, List.nil_append] at this
      omega
    | cons b bs =>
      simp only [List.cons_append, List.cons.injEq] at hrest
      obtain ⟨rfl, hrest⟩ := hrest
      exact ⟨bs, firstLine?_eq_some_iff.mpr ⟨raw, hraw, rfl, hline⟩, hrest⟩

/-! ## The lines after the first -/

theorem readLines_append {code : Nat} {text t : String} {buffer rest : Octets}
    (h : readLines code text buffer = some (t, rest)) (more : Octets) :
    readLines code text (buffer ++ more) = some (t, rest ++ more) := by
  induction text, buffer using readLines.induct code with
  | case1 text buffer hfirst =>
    rw [readLines_eq] at h
    simp [hfirst] at h
  | case2 text buffer line left hfirst hcloses =>
    rw [readLines_eq] at h ⊢
    simp only [hfirst, firstLine?_append hfirst more, hcloses, if_true, Option.some.injEq,
      Prod.mk.injEq] at h ⊢
    exact ⟨h.1, by rw [h.2]⟩
  | case3 text buffer line left hfirst hcloses ih =>
    rw [readLines_eq] at h ⊢
    simp only [hfirst, firstLine?_append hfirst more, hcloses, Bool.false_eq_true, if_false] at h ⊢
    exact ih h

theorem readLines_of_append {code : Nat} {text t : String} {buffer more rest : Octets}
    (h : readLines code text (buffer ++ more) = some (t, rest))
    (hlen : more.length ≤ rest.length) :
    ∃ left, readLines code text buffer = some (t, left) ∧ rest = left ++ more := by
  induction hn : buffer.length using Nat.strong_induction_on generalizing text buffer with
  | _ n ih =>
    rw [readLines_eq] at h
    cases hfirst : firstLine? (buffer ++ more) with
    | none => simp [hfirst] at h
    | some p =>
      obtain ⟨line, left⟩ := p
      by_cases hcloses : closes code line
      · simp only [hfirst, hcloses, if_true, Option.some.injEq, Prod.mk.injEq] at h
        obtain ⟨rfl, rfl⟩ := h
        obtain ⟨left, hline, rfl⟩ := firstLine?_of_append hfirst hlen
        refine ⟨left, ?_, rfl⟩
        rw [readLines_eq]
        simp [hline, hcloses]
      · simp only [hfirst, hcloses, Bool.false_eq_true, if_false] at h
        have hle : more.length ≤ left.length := hlen.trans (length_lt_of_readLines h).le
        obtain ⟨left, hline, rfl⟩ := firstLine?_of_append hfirst hle
        obtain ⟨after, hread, rfl⟩ := ih _ (hn ▸ length_lt_of_firstLine? hline) h rfl
        refine ⟨after, ?_, rfl⟩
        rw [readLines_eq]
        simpa [hline, hcloses] using hread

/-! ## Whole replies -/

/-- A reply that is complete with its first line, or with later ones. -/
theorem read_eq_some_iff {buffer rest : Octets} {r : Reply} :
    read buffer = .ok (some (r, rest)) ↔
      ∃ line left, firstLine? buffer = some (line, left) ∧ code? line = some r.code ∧
        if announcesMore line then readLines r.code (lineText line) left = some (r.text, rest)
        else r.text = lineText line ∧ rest = left := by
  obtain ⟨code, text⟩ := r
  unfold read incomplete
  constructor
  · intro h
    split at h
    · split at h <;> simp at h
    · next line left hfirst =>
      split at h
      · simp at h
      · next c hcode =>
        refine ⟨line, left, hfirst, ?_⟩
        split at h
        · next hmore =>
          split at h
          · split at h <;> simp at h
          · next t after hlines =>
            simp only [Except.ok.injEq, Option.some.injEq, Prod.mk.injEq, Reply.mk.injEq] at h
            obtain ⟨⟨rfl, rfl⟩, rfl⟩ := h
            simp [hcode, hmore, hlines]
        · next hmore =>
          simp only [Except.ok.injEq, Option.some.injEq, Prod.mk.injEq, Reply.mk.injEq] at h
          obtain ⟨⟨rfl, rfl⟩, rfl⟩ := h
          simp [hcode, hmore]
  · rintro ⟨line, left, hfirst, hcode, h⟩
    by_cases hmore : announcesMore line
    · simp only [hmore, if_true] at h
      simp [hfirst, hcode, hmore, h]
    · simp only [hmore, Bool.false_eq_true, if_false] at h
      simp [hfirst, hcode, hmore, h.1, h.2]

theorem read_of_malformed {buffer line rest : Octets}
    (hfirst : firstLine? buffer = some (line, rest)) (hcode : code? line = none) :
    read buffer = .error (.malformed (Utf8.text line)) := by
  simp [read, hfirst, hcode]

/-- A buffer with the beginning of a reply, or with nothing that could be malformed yet. -/
structure Unfinished (buffer : Octets) : Prop where
  code_ne_none : ∀ line rest, firstLine? buffer = some (line, rest) → code? line ≠ none
  read_eq : ∃ tooLong, read buffer = incomplete buffer tooLong

/-- What stands at the front of a buffer is a reply, or malformed, or unfinished. -/
theorem read_cases (buffer : Octets) :
    (∃ r rest, read buffer = .ok (some (r, rest))) ∨
      (∃ line rest, firstLine? buffer = some (line, rest) ∧ code? line = none) ∨
      Unfinished buffer := by
  cases hfirst : firstLine? buffer with
  | none =>
    refine .inr (.inr ⟨by simp [hfirst], "reply line too long", ?_⟩)
    simp only [read, hfirst]
  | some p =>
    obtain ⟨line, left⟩ := p
    cases hcode : code? line with
    | none => exact .inr (.inl ⟨line, left, rfl, hcode⟩)
    | some code =>
      by_cases hmore : announcesMore line
      · cases hlines : readLines code (lineText line) left with
        | none =>
          refine .inr (.inr ⟨?_, "multi-line reply too long", ?_⟩)
          · simp [hfirst, hcode]
          · simp only [read, hfirst, hcode, hmore, hlines, if_true]
        | some q =>
          exact .inl ⟨⟨code, q.1⟩, q.2, by simp [read, hfirst, hcode, hmore, hlines]⟩
      · exact .inl ⟨⟨code, lineText line⟩, left, by simp [read, hfirst, hcode, hmore]⟩

theorem read_append {buffer rest : Octets} {r : Reply} (h : read buffer = .ok (some (r, rest)))
    (more : Octets) : read (buffer ++ more) = .ok (some (r, rest ++ more)) := by
  obtain ⟨line, left, hfirst, hcode, h⟩ := read_eq_some_iff.mp h
  refine read_eq_some_iff.mpr ⟨line, left ++ more, firstLine?_append hfirst more, hcode, ?_⟩
  by_cases hmore : announcesMore line
  · simp only [hmore, if_true] at h ⊢
    exact readLines_append h more
  · simp only [hmore, Bool.false_eq_true, if_false] at h ⊢
    exact ⟨h.1, by rw [h.2]⟩

theorem read_of_append {buffer more rest : Octets} {r : Reply}
    (h : read (buffer ++ more) = .ok (some (r, rest))) (hlen : more.length ≤ rest.length) :
    ∃ left, read buffer = .ok (some (r, left)) ∧ rest = left ++ more := by
  obtain ⟨line, left, hfirst, hcode, h⟩ := read_eq_some_iff.mp h
  by_cases hmore : announcesMore line
  · simp only [hmore, if_true] at h
    have hle : more.length ≤ left.length := hlen.trans (length_lt_of_readLines h).le
    obtain ⟨left, hline, rfl⟩ := firstLine?_of_append hfirst hle
    obtain ⟨after, hlines, rfl⟩ := readLines_of_append h hlen
    exact ⟨after, read_eq_some_iff.mpr ⟨line, left, hline, hcode, by simpa [hmore] using hlines⟩,
      rfl⟩
  · simp only [hmore, Bool.false_eq_true, if_false] at h
    obtain ⟨htext, rfl⟩ := h
    obtain ⟨left, hline, rfl⟩ := firstLine?_of_append hfirst hlen
    exact ⟨left, read_eq_some_iff.mpr ⟨line, left, hline, hcode, by simp [hmore, htext]⟩, rfl⟩

theorem Unfinished.read_eq_none {buffer : Octets} (h : Unfinished buffer)
    (hlen : buffer.length ≤ lengthLimit) : read buffer = .ok none := by
  obtain ⟨tooLong, hread⟩ := h.read_eq
  simpa [incomplete, Nat.not_lt.mpr hlen] using hread

theorem Unfinished.read_ne_some {buffer rest : Octets} {r : Reply} (h : Unfinished buffer) :
    read buffer ≠ .ok (some (r, rest)) := by
  obtain ⟨tooLong, hread⟩ := h.read_eq
  rw [hread, incomplete]
  split <;> simp

end FaxClient.Reply
