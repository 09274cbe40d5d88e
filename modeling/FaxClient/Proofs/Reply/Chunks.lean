import FaxClient.Proofs.Reply.Stability

/-!
# Replies that arrive in chunks

Octets are drained of their replies in the same way whether they arrive all at once or in chunks,
wherever they are cut: within a code, within a line ending, within a reply, or between two.  The
limit on the length of an incomplete reply is the one thing that tells the two apart, so it must not
be passed on the way.
-/

namespace FaxClient.Reply

/-- Octets in which no reply is longer than the limit, and neither is what follows the last reply,
be it malformed or incomplete.  A malformed line counts up to its line feed. -/
inductive Paced : Octets → Prop
  | reply {buffer rest : Octets} {r : Reply} (hread : read buffer = .ok (some (r, rest)))
      (hlen : buffer.length ≤ rest.length + lengthLimit) (hrest : Paced rest) : Paced buffer
  | malformed {buffer line rest : Octets} (hfirst : firstLine? buffer = some (line, rest))
      (hcode : code? line = none) (hlen : buffer.length ≤ rest.length + 1 + lengthLimit) :
      Paced buffer
  | incomplete {buffer : Octets} (hlen : buffer.length ≤ lengthLimit) : Paced buffer

theorem Paced.of_read {buffer rest : Octets} {r : Reply} (h : Paced buffer)
    (hread : read buffer = .ok (some (r, rest))) : Paced rest := by
  cases h with
  | reply hread' hlen hrest =>
    rw [hread] at hread'
    simp only [Except.ok.injEq, Option.some.injEq, Prod.mk.injEq] at hread'
    exact hread'.2 ▸ hrest
  | malformed hfirst hcode hlen => simp [read_of_malformed hfirst hcode] at hread
  | incomplete hlen => exact .incomplete ((length_lt_of_read hread).le.trans hlen)

/-- The beginning of octets that are paced is short as long as it is unfinished. -/
theorem Paced.length_le_of_unfinished {buffer more : Octets} (h : Paced (buffer ++ more))
    (hbuffer : Unfinished buffer) : buffer.length ≤ lengthLimit := by
  cases h with
  | @reply _ rest r hread hlen hrest =>
    have hlt : rest.length < more.length := by
      by_contra hle
      obtain ⟨left, hleft, -⟩ := read_of_append hread (Nat.not_lt.mp hle)
      exact hbuffer.read_ne_some hleft
    simp only [List.length_append] at hlen
    omega
  | @malformed _ line rest hfirst hcode hlen =>
    have hlt : rest.length < more.length := by
      by_contra hle
      obtain ⟨left, hleft, -⟩ := firstLine?_of_append hfirst (Nat.not_lt.mp hle)
      exact hbuffer.code_ne_none line left hleft hcode
    simp only [List.length_append] at hlen
    omega
  | incomplete hlen =>
    simp only [List.length_append] at hlen
    omega

/-! ## Draining -/

theorem drain_of_reply {buffer rest : Octets} {r : Reply}
    (h : read buffer = .ok (some (r, rest))) :
    drain buffer = { drain rest with replies := r :: (drain rest).replies } := by
  rw [drain]
  split <;> simp_all

theorem drain_of_none {buffer : Octets} (h : read buffer = .ok none) :
    drain buffer = ⟨[], none, buffer⟩ := by
  rw [drain]
  split <;> simp_all

theorem drain_of_error {buffer : Octets} {e : ExchangeError} (h : read buffer = .error e) :
    drain buffer = ⟨[], some e, buffer⟩ := by
  rw [drain]
  split <;> simp_all

/-- What an error-free drain leaves over holds no reply. -/
theorem read_rest_drain {buffer : Octets} (h : (drain buffer).error = none) :
    read (drain buffer).rest = .ok none := by
  induction buffer using drain.induct with
  | case1 buffer e hread => simp [drain_of_error hread] at h
  | case2 buffer hread => simpa [drain_of_none hread] using hread
  | case3 buffer r rest hread ih =>
    simp only [drain_of_reply hread] at h ⊢
    exact ih h

/-- An error stays the same when more octets arrive, and so do the replies before it. -/
theorem drain_append_of_error {buffer more : Octets} {e : ExchangeError}
    (h : Paced (buffer ++ more)) (herror : (drain buffer).error = some e) :
    (drain (buffer ++ more)).replies = (drain buffer).replies ∧
      (drain (buffer ++ more)).error = some e := by
  induction buffer using drain.induct with
  | case1 buffer e' hread =>
    rcases read_cases buffer with ⟨r, rest, hreply⟩ | ⟨line, rest, hfirst, hcode⟩ | hunfinished
    · simp [hread] at hreply
    · have hmore := read_of_malformed (firstLine?_append hfirst more) hcode
      rw [read_of_malformed hfirst hcode] at hread
      simp only [Except.error.injEq] at hread
      subst hread
      simpa [drain_of_error hmore, drain_of_error (read_of_malformed hfirst hcode)] using herror
    · have hnone := hunfinished.read_eq_none (h.length_le_of_unfinished hunfinished)
      simp [hread] at hnone
  | case2 buffer hread => simp [drain_of_none hread] at herror
  | case3 buffer r rest hread ih =>
    have hmore := read_append hread more
    simp only [drain_of_reply hread] at herror ⊢
    obtain ⟨hreplies, herror'⟩ := ih (h.of_read hmore) herror
    simp [drain_of_reply hmore, hreplies, herror']

/-- Without an error, draining goes on with what was left over and the octets that arrive. -/
theorem drain_append_of_no_error {buffer more : Octets} (h : Paced (buffer ++ more))
    (herror : (drain buffer).error = none) :
    Paced ((drain buffer).rest ++ more) ∧
      drain (buffer ++ more) = { drain ((drain buffer).rest ++ more) with
        replies := (drain buffer).replies ++ (drain ((drain buffer).rest ++ more)).replies } := by
  induction buffer using drain.induct with
  | case1 buffer e hread => simp [drain_of_error hread] at herror
  | case2 buffer hread => simpa [drain_of_none hread] using h
  | case3 buffer r rest hread ih =>
    have hmore := read_append hread more
    simp only [drain_of_reply hread] at herror ⊢
    obtain ⟨hpaced, heq⟩ := ih (h.of_read hmore) herror
    refine ⟨hpaced, ?_⟩
    rw [drain_of_reply hmore, heq]
    simp

/-! ## Chunks -/

/-- Two drains that agree on all that a reader of replies can tell; after an error, the octets left
over are not looked at any more. -/
def Drained.Agrees (d e : Drained) : Prop :=
  d.replies = e.replies ∧ d.error = e.error ∧ (d.error = none → d.rest = e.rest)

theorem drainChunks_agrees {buffer : Octets} {chunks : List Octets}
    (h : Paced (buffer ++ chunks.flatten)) (hbuffer : read buffer = .ok none) :
    (drainChunks buffer chunks).Agrees (drain (buffer ++ chunks.flatten)) := by
  induction chunks generalizing buffer with
  | nil => simp [drainChunks, Drained.Agrees, drain_of_none hbuffer]
  | cons chunk chunks ih =>
    have h' : Paced ((buffer ++ chunk) ++ chunks.flatten) := by simpa using h
    rw [List.flatten_cons, ← List.append_assoc, drainChunks]
    cases herror : (drain (buffer ++ chunk)).error with
    | some e =>
      obtain ⟨hreplies, herror'⟩ := drain_append_of_error h' herror
      dsimp only
      exact ⟨hreplies.symm, by rw [herror, herror'], by simp [herror]⟩
    | none =>
      obtain ⟨hpaced, heq⟩ := drain_append_of_no_error h' herror
      obtain ⟨hreplies, herrors, hrest⟩ := ih hpaced (read_rest_drain herror)
      rw [heq]
      dsimp only
      exact ⟨by rw [hreplies], herrors, hrest⟩

/-- A malformed line must be within the limit as well: a longer one is found to be too long if it
arrives before its line feed, and to be malformed if it arrives with it. -/
theorem error_of_overlong_line {raw : Octets} (hraw : Octets.lf ∉ raw)
    (hlen : lengthLimit < raw.length) (hcode : code? (chomp raw) = none) :
    (drainChunks [] [raw, [Octets.lf]]).error = some (.malformed "reply line too long") ∧
      (drainChunks [] [raw ++ [Octets.lf]]).error =
        some (.malformed (Utf8.text (chomp raw))) := by
  have hshort : read raw = .error (.malformed "reply line too long") := by
    simp [read, firstLine?_eq_none_iff.mpr hraw, incomplete, hlen]
  have hwhole : read (raw ++ [Octets.lf]) = .error (.malformed (Utf8.text (chomp raw))) :=
    read_of_malformed (firstLine?_append_lf hraw []) hcode
  constructor
  · simp [drainChunks, drain_of_error hshort]
  · simp [drainChunks, drain_of_error hwhole]

/-- Replies are the same however the octets that carry them are cut into chunks. -/
theorem drainChunks_eq_drain_flatten (chunks : List Octets) (h : Paced chunks.flatten) :
    (drainChunks [] chunks).replies = (drain chunks.flatten).replies ∧
      (drainChunks [] chunks).error = (drain chunks.flatten).error ∧
      ((drainChunks [] chunks).error = none →
        (drainChunks [] chunks).rest = (drain chunks.flatten).rest) :=
  drainChunks_agrees (by simpa using h) (by simp [read, firstLine?, incomplete])

/-- Two replies and a malformed line, cut between a carriage return and its line feed, within a
code, and at an empty chunk. -/
theorem drainChunks_cut_anywhere :
    let chunks : List Octets :=
      [[49, 53, 48, 45, 97, 13], [10, 49, 53], [], [48, 32, 98, 13, 10, 50], [50, 48, 13, 10, 63],
        [10, 33]]
    Paced chunks.flatten ∧ (drainChunks [] chunks).replies = (drain chunks.flatten).replies ∧
      (drainChunks [] chunks).error = (drain chunks.flatten).error ∧
      ((drainChunks [] chunks).error = none →
        (drainChunks [] chunks).rest = (drain chunks.flatten).rest) := by
  intro chunks
  have h : Paced chunks.flatten := .incomplete (by decide)
  exact ⟨h, drainChunks_eq_drain_flatten chunks h⟩

end FaxClient.Reply
