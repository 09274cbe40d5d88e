import FaxClient.Proofs.Reply.Chunks
import FaxClient.Proofs.Reply.Grammar

/-!
# What a reply takes off the buffer

A call of the reader that answers with a reply takes off the shortest beginning of the buffer that is
a reply: nothing shorter is one, and what follows it makes no difference.  Any other call takes
nothing.  So a buffer is drained by a number of calls that its length bounds, and falls into the
octets that each of these calls took and those that are left over.
-/

namespace FaxClient.Reply

open Octets

/-! ## One reply -/

theorem length_chomp_le (raw : Octets) : (chomp raw).length ≤ raw.length := by
  unfold chomp
  split <;> simp

theorem three_le_of_code? {line : Octets} {code : Nat} (h : code? line = some code) :
    3 ≤ line.length := by
  obtain ⟨a, b, c, rest, rfl, -⟩ := decodeLossy_of_code? h
  simp

theorem readLines_ends {code : Nat} {text t : String} {buffer rest : Octets}
    (h : readLines code text buffer = some (t, rest)) : ∃ lines, buffer = lines ++ lf :: rest := by
  induction text, buffer using readLines.induct code with
  | case1 text buffer hfirst =>
    rw [readLines_eq] at h
    simp [hfirst] at h
  | case2 text buffer line left hfirst hcloses =>
    obtain ⟨raw, -, rfl, -⟩ := firstLine?_eq_some_iff.mp hfirst
    rw [readLines_of_closes text hfirst hcloses] at h
    cases h
    exact ⟨raw, rfl⟩
  | case3 text buffer line left hfirst hcloses ih =>
    obtain ⟨raw, -, rfl, -⟩ := firstLine?_eq_some_iff.mp hfirst
    rw [readLines_of_goesOn text hfirst (by simpa using hcloses)] at h
    obtain ⟨lines, rfl⟩ := ih h
    exact ⟨raw ++ lf :: lines, by simp⟩

/-- A reply ends with a line feed, and its first line holds a code. -/
theorem read_ends {buffer rest : Octets} {r : Reply} (h : read buffer = .ok (some (r, rest))) :
    ∃ lines, buffer = lines ++ lf :: rest ∧ 3 ≤ lines.length := by
  obtain ⟨line, left, hfirst, hcode, h⟩ := read_eq_some_iff.mp h
  obtain ⟨raw, -, rfl, rfl⟩ := firstLine?_eq_some_iff.mp hfirst
  have hraw : 3 ≤ raw.length := (three_le_of_code? hcode).trans (length_chomp_le raw)
  split at h
  · obtain ⟨lines, rfl⟩ := readLines_ends h
    exact ⟨raw ++ lf :: lines, by simp, by simp; omega⟩
  · rw [h.2]
    exact ⟨raw, rfl, hraw⟩

/-- The octets that a reply takes off the buffer are that reply by themselves. -/
theorem read_takes {buffer rest : Octets} {r : Reply} (h : read buffer = .ok (some (r, rest))) :
    ∃ taken, buffer = taken ++ rest ∧ 4 ≤ taken.length ∧ taken.getLast? = some lf ∧
      read taken = .ok (some (r, [])) := by
  obtain ⟨lines, rfl, hlen⟩ := read_ends h
  rw [← List.singleton_append, ← List.append_assoc] at h
  obtain ⟨left, htaken, hleft⟩ := read_of_append h le_rfl
  obtain rfl : left = [] := by simpa using hleft
  exact ⟨lines ++ [lf], by simp, by simpa using hlen, by simp, htaken⟩

/-- A reply that takes a whole buffer is not there in less of it. -/
theorem read_ne_some_of_shorter {taken shorter : Octets} {r : Reply}
    (h : read taken = .ok (some (r, []))) (hbegins : shorter <+: taken) (hne : shorter ≠ taken)
    (s : Reply) (left : Octets) : read shorter ≠ .ok (some (s, left)) := by
  intro hshorter
  obtain ⟨more, rfl⟩ := hbegins
  rw [read_append hshorter] at h
  simp only [Except.ok.injEq, Option.some.injEq, Prod.mk.injEq, List.append_eq_nil_iff] at h
  apply hne
  rw [h.2.2, List.append_nil]

/-! ## One call -/

theorem call_of_read {buffer rest : Octets} {r : Reply} (h : read buffer = .ok (some (r, rest))) :
    call buffer = (.ok (some r), rest) := by
  simp only [call, h]

theorem read_of_call {buffer : Octets} {r : Reply} (h : (call buffer).1 = .ok (some r)) :
    read buffer = .ok (some (r, (call buffer).2)) := by
  unfold call at h ⊢
  split at h
  · cases h
  · cases h
  · next s rest hread =>
    cases h
    simp only [hread]

theorem call_of_none {buffer : Octets} (h : read buffer = .ok none) :
    call buffer = (.ok none, buffer) := by
  simp only [call, h]

theorem call_of_error {buffer : Octets} {e : ExchangeError} (h : read buffer = .error e) :
    call buffer = (.error e, buffer) := by
  simp only [call, h]

/-- Only a reply is taken off the buffer. -/
theorem call_leaves {buffer : Octets} (h : ∀ r, (call buffer).1 ≠ .ok (some r)) :
    (call buffer).2 = buffer := by
  unfold call at h ⊢
  split
  · rfl
  · rfl
  · next r rest hread =>
    simp only [hread] at h
    exact absurd rfl (h r)

theorem length_le_of_call_none {buffer : Octets} (h : (call buffer).1 = .ok none) :
    buffer.length ≤ lengthLimit := by
  rcases read_cases buffer with ⟨r, rest, hreply⟩ | ⟨line, rest, hfirst, hcode⟩ | hunfinished
  · simp [call_of_read hreply] at h
  · simp [call_of_error (read_of_malformed hfirst hcode)] at h
  · by_contra hlong
    obtain ⟨tooLong, hread⟩ := hunfinished.read_eq
    rw [incomplete, if_pos (Nat.not_le.mp hlong)] at hread
    simp [call_of_error hread] at h

/-! ## One call after the other -/

theorem calls_succ_of_read {buffer rest : Octets} {r : Reply}
    (h : read buffer = .ok (some (r, rest))) (n : Nat) :
    calls (n + 1) buffer = (.ok (some r) :: (calls n rest).1, (calls n rest).2) := by
  rw [calls, call_of_read h]

/-- As many calls as a buffer has replies answer with these replies. -/
theorem calls_drain (buffer : Octets) :
    calls (drain buffer).replies.length buffer =
      ((drain buffer).replies.map fun r => .ok (some r), (drain buffer).rest) := by
  induction buffer using drain.induct with
  | case1 buffer e hread => rw [drain_of_error hread]; rfl
  | case2 buffer hread => rw [drain_of_none hread]; rfl
  | case3 buffer r rest hread ih =>
    rw [drain_of_reply hread]
    calc calls ((drain rest).replies.length + 1) buffer
      _ = (.ok (some r) :: (calls (drain rest).replies.length rest).1,
          (calls (drain rest).replies.length rest).2) := calls_succ_of_read hread _
      _ = (.ok (some r) :: (drain rest).replies.map fun r => .ok (some r), (drain rest).rest) := by
        rw [ih]

/-- The next call stops: it answers with no reply and takes nothing. -/
theorem call_rest_drain (buffer : Octets) :
    call (drain buffer).rest =
      (match (drain buffer).error with
        | some e => .error e
        | none => .ok none, (drain buffer).rest) := by
  induction buffer using drain.induct with
  | case1 buffer e hread => rw [drain_of_error hread, call_of_error hread]
  | case2 buffer hread => rw [drain_of_none hread, call_of_none hread]
  | case3 buffer r rest hread ih =>
    rw [drain_of_reply hread]
    exact ih

/-- What is left after some of these calls is what the later ones take and what is left over. -/
theorem exists_taken (buffer : Octets) :
    ∃ taken : List Octets, taken.length = (drain buffer).replies.length ∧
      (∀ octets ∈ taken, 4 ≤ octets.length) ∧
      ∀ n ≤ taken.length,
        (calls n buffer).2 = (taken.drop n).flatten ++ (drain buffer).rest := by
  induction buffer using drain.induct with
  | case1 buffer e hread => exact ⟨[], by simp [drain_of_error hread, calls]⟩
  | case2 buffer hread => exact ⟨[], by simp [drain_of_none hread, calls]⟩
  | case3 buffer r rest hread ih =>
    obtain ⟨taken, hlen, hfour, hleft⟩ := ih
    obtain ⟨octets, hbuffer, hlong, -, -⟩ := read_takes hread
    rw [drain_of_reply hread]
    refine ⟨octets :: taken, by simp [hlen], List.forall_mem_cons.mpr ⟨hlong, hfour⟩, ?_⟩
    intro n hn
    cases n with
    | zero =>
      have hrest := hleft 0 (Nat.zero_le _)
      simp only [calls, List.drop_zero] at hrest
      simp only [calls, List.drop_zero, List.flatten_cons, List.append_assoc]
      rw [← hrest]
      exact hbuffer
    | succ n =>
      rw [calls_succ_of_read hread, List.drop_succ_cons]
      exact hleft n (Nat.le_of_succ_le_succ hn)

theorem mul_length_le_length_flatten {size : Nat} {pieces : List Octets}
    (h : ∀ octets ∈ pieces, size ≤ octets.length) :
    pieces.length * size ≤ pieces.flatten.length := by
  have hsum := List.card_nsmul_le_sum (pieces.map List.length) size (by simpa using h)
  simpa [List.length_flatten] using hsum

/-- A call that answers with a reply takes the shortest beginning of the buffer that is a reply, of
at least four octets and with a line feed at its end, whatever follows it.  Any other call leaves the
buffer as it is, and one that waits for more leaves no more than the limit.  After at most a quarter
as many calls as a buffer has octets it is drained, and what they took and what is left over make up
the buffer. -/
theorem call_takes_shortest (buffer : Octets) :
    (∀ r, (call buffer).1 = .ok (some r) →
        ∃ taken, buffer = taken ++ (call buffer).2 ∧ 4 ≤ taken.length ∧ taken.getLast? = some lf ∧
          (∀ shorter, shorter <+: taken → shorter ≠ taken →
            ∀ s, (call shorter).1 ≠ .ok (some s)) ∧
          ∀ more, call (taken ++ more) = (.ok (some r), more)) ∧
      ((call buffer).1 = .ok none → (call buffer).2 = buffer ∧ buffer.length ≤ lengthLimit) ∧
      (∀ e, (call buffer).1 = .error e → (call buffer).2 = buffer) ∧
      (drain buffer).replies.length ≤ buffer.length / 4 ∧
      calls (drain buffer).replies.length buffer =
        ((drain buffer).replies.map fun r => .ok (some r), (drain buffer).rest) ∧
      (∀ s, (call (drain buffer).rest).1 ≠ .ok (some s)) ∧
      ∃ taken : List Octets, taken.length = (drain buffer).replies.length ∧
        ∀ n ≤ taken.length,
          (calls n buffer).2 = (taken.drop n).flatten ++ (drain buffer).rest := by
  obtain ⟨pieces, hlen, hfour, hleft⟩ := exists_taken buffer
  refine ⟨?_, ?_, ?_, ?_, calls_drain buffer, ?_, pieces, hlen, hleft⟩
  · intro r hr
    have hread := read_of_call hr
    obtain ⟨taken, hbuffer, hlong, hlast, htaken⟩ := read_takes hread
    refine ⟨taken, hbuffer, hlong, hlast, ?_, ?_⟩
    · intro shorter hbegins hne s hs
      exact read_ne_some_of_shorter htaken hbegins hne s _ (read_of_call hs)
    · intro more
      exact call_of_read (read_append htaken more)
  · intro hnone
    exact ⟨call_leaves (by simp [hnone]), length_le_of_call_none hnone⟩
  · intro e he
    exact call_leaves (by simp [he])
  · have hbuffer : buffer = pieces.flatten ++ (drain buffer).rest := hleft 0 (Nat.zero_le _)
    have htotal := (mul_length_le_length_flatten hfour).trans
      (List.prefix_append _ (drain buffer).rest).length_le
    rwa [← hbuffer, hlen, ← Nat.le_div_iff_mul_le (by decide)] at htotal
  · intro s hs
    rw [call_rest_drain] at hs
    cases herror : (drain buffer).error <;> simp [herror] at hs

end FaxClient.Reply
