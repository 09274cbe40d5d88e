import FaxClient.Proofs.HostPort.Runs

/-!
# Endpoints in the text of a reply

The encoding of an endpoint is found again in any text, provided that there is no group before it
and that it is not run together with the digits and commas around it.  Before it there may be
numbers, runs that are no group, and commas, also right before it.
-/

namespace FaxClient.HostPort

/-- What ends a text ends every text that ends with it. -/
theorem mem_rtakeWhile_append {p : Char → Bool} {c : Char} (before : List Char) {after : List Char}
    (h : c ∈ after.rtakeWhile p) : c ∈ (before ++ after).rtakeWhile p := by
  simp only [List.rtakeWhile, List.mem_reverse, List.reverse_append, List.takeWhile_append] at h ⊢
  split
  · exact List.mem_append_left _ ((List.takeWhile_sublist p).subset h)
  · exact h

/-- A text without a group is passed over if its last run has no digit: what follows is not run
together with it. -/
theorem find?_append {before : List Char} (hnone : find? before = none)
    (hend : ∀ c ∈ before.rtakeWhile inGroup, isDigit c = false) (after : List Char) :
    find? (before ++ after) = find? after := by
  induction before using runInduction with
  | nil => rfl
  | skip c rest hc ih =>
    rw [find?_skip hc] at hnone
    rw [List.cons_append, find?_skip hc]
    exact ih hnone fun d hd => hend d (mem_rtakeWhile_append [c] hd)
  | run c run rest hc hrun hrest ih =>
    rw [find?_run hc hrun hrest, Option.or_eq_none_iff] at hnone
    cases rest with
    | nil =>
      -- The text would end with a run that holds the digit `c`.
      have hall : ∀ d ∈ c :: run, inGroup d = true :=
        List.forall_mem_cons.mpr ⟨by simp [inGroup, hc], hrun⟩
      have hlast : ((c :: run) ++ []).rtakeWhile inGroup = c :: run := by
        rw [List.append_nil, List.rtakeWhile_eq_self_iff]
        exact hall
      rw [hlast] at hend
      simp [hend c List.mem_cons_self] at hc
    | cons s rest =>
      have hnext : ∀ d ∈ (s :: rest ++ after).head?, inGroup d = false := hrest
      rw [List.append_assoc, find?_run hc hrun hnext, hnone.1, Option.none_or]
      exact ih hnone.2 fun d hd => hend d (mem_rtakeWhile_append (c :: run) hd)

/-- A group at the front of a text is found if it is not run together with what follows. -/
theorem find?_append_of_writes {group : List Char} {e : Endpoint} (h : Writes group e)
    {after : List Char} (hafter : ∀ c ∈ after.head?, inGroup c = false) :
    find? (group ++ after) = some e := by
  obtain ⟨c, run, rfl, hc⟩ := h.exists_cons
  have hrun := (List.forall_mem_cons.mp h.inGroup_of_mem).2
  rw [find?_run hc hrun hafter, h.group?_eq, Option.some_or]

/-- An endpoint is read back from its encoding in any text that has no group before it and does not
run the encoding together with other digits or commas. -/
theorem parse_encode_between (e : Endpoint) (before after : String)
    (hnone : ∀ other, parse before ≠ .ok other)
    (hbefore : ∀ c ∈ before.toList.rtakeWhile inGroup, isDigit c = false)
    (hafter : ∀ c ∈ after.toList.head?, inGroup c = false) :
    ∃ group, encode? (.v4 e) = .ok group ∧ parse (before ++ group ++ after) = .ok e := by
  have hfind : find? before.toList = none := by
    rw [Option.eq_none_iff_forall_ne_some]
    intro other hother
    exact hnone other (parse_eq_ok_iff.mpr hother)
  refine ⟨encode e, rfl, ?_⟩
  rw [parse_eq_ok_iff, String.toList_append, String.toList_append, List.append_assoc,
    find?_append hfind hbefore]
  exact find?_append_of_writes (writes_encode e) hafter

/-- An encoding after a number, two runs that are no group, a character of two octets, and commas
that lead its own run. -/
theorem parse_encode_between_runs :
    let before := "227 é=1,2,3,4,5; 300,0,0,0,0,1; ,,"
    let after := ").1,2,3,4,5,6"
    let e : Endpoint := ⟨⟨10, 0, 0, 5⟩, 1025⟩
    (∀ other, parse before ≠ .ok other) ∧
      (∀ c ∈ before.toList.rtakeWhile inGroup, isDigit c = false) ∧
      (∀ c ∈ after.toList.head?, inGroup c = false) ∧
      ∃ group, encode? (.v4 e) = .ok group ∧ parse (before ++ group ++ after) = .ok e := by
  intro before after e
  have hfind : find? before.toList = none := by cbv
  have hnone : ∀ other, parse before ≠ .ok other := by
    simp [parse_eq_ok_iff, hfind]
  have hbefore : ∀ c ∈ before.toList.rtakeWhile inGroup, isDigit c = false := by
    have hend : before.toList.rtakeWhile inGroup = [',', ','] := by cbv
    intro c hc
    obtain rfl : c = ',' := by simpa [hend] using hc
    decide
  have hafter : ∀ c ∈ after.toList.head?, inGroup c = false := by
    have hhead : after.toList.head? = some ')' := by cbv
    intro c hc
    obtain rfl : ')' = c := by simpa [hhead] using hc
    decide
  exact ⟨hnone, hbefore, hafter, parse_encode_between e before after hnone hbefore hafter⟩

end FaxClient.HostPort
