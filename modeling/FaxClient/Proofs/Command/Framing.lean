import FaxClient.Command
import FaxClient.Proofs.Text.Encoding

/-!
# The lines of commands

Commands that are sent one after the other are told apart by their lines.  What is sent for a command
is one line or nothing: nothing if its verb is empty or has a blank in it, or if there is a line end
in its arguments.  The lines end with CR LF and hold neither CR nor LF before that, and the first
blank of a line divides the verb from the arguments, so the commands that were not refused are found
again in the octets, and no other.
-/

namespace FaxClient

namespace Octets

/-- The pieces that CR LF divides octets into.  The last of them is what follows the last CR LF. -/
def splitCrLf : Octets → List Octets
  | [] => [[]]
  | [b] => [[b]]
  | b :: c :: rest =>
    if b = cr ∧ c = lf then [] :: splitCrLf rest
    else (splitCrLf (c :: rest)).modifyHead (b :: ·)

theorem splitCrLf_cons_of_ne {b : UInt8} (h : b ≠ cr) (rest : Octets) :
    splitCrLf (b :: rest) = (splitCrLf rest).modifyHead (b :: ·) := by
  cases rest with
  | nil => rfl
  | cons c rest => simp [splitCrLf, h]

theorem splitCrLf_append {line : Octets} (h : cr ∉ line) (rest : Octets) :
    splitCrLf (line ++ cr :: lf :: rest) = line :: splitCrLf rest := by
  induction line with
  | nil => simp [splitCrLf]
  | cons b line ih =>
    obtain ⟨hb, hline⟩ : cr ≠ b ∧ cr ∉ line := by simpa using h
    rw [List.cons_append, splitCrLf_cons_of_ne hb.symm, ih hline, List.modifyHead_cons]

end Octets

namespace Command

open Octets

/-- The command is not sent: it has no verb, there is a blank in the verb, or there is a line end in
the arguments. -/
def Refused (c : Command) : Prop :=
  c.verb = "" ∨ (∃ ch ∈ c.verb.toList, Text.isBlank ch = true) ∨
    ∃ args, c.args = some args ∧ ('\r' ∈ args.toList ∨ '\n' ∈ args.toList)

theorem any_isLineEnd {cs : List Char} :
    cs.any isLineEnd = true ↔ '\r' ∈ cs ∨ '\n' ∈ cs := by
  simp [isLineEnd, and_or_left, exists_or]

theorem isSendable_iff {c : Command} : c.isSendable = true ↔ ¬c.Refused := by
  obtain ⟨verb, args⟩ := c
  cases args with
  | none => simp [isSendable, Refused]
  | some args =>
    have hargs : args.toList.any isLineEnd = false ↔
        ¬('\r' ∈ args.toList ∨ '\n' ∈ args.toList) := by
      rw [← any_isLineEnd, Bool.not_eq_true]
    simp only [isSendable, Refused, Option.getD_some, Bool.and_eq_true, Bool.not_eq_true', hargs]
    simp [and_assoc]

instance : DecidablePred Refused :=
  fun c => decidable_of_iff (¬c.isSendable = true) (by rw [isSendable_iff, not_not])

/-- The line of a command without its end. -/
def body (c : Command) : Octets :=
  ofText c.verb ++ match c.args with
    | none => []
    | some args => 32 :: ofText args

/-- The command of a line: what precedes the first blank is the verb, and what follows it, if there
is one, are the arguments. -/
def ofBody (line : Octets) : Command where
  verb := Utf8.text (line.takeWhile (· != 32))
  args := match line.dropWhile (· != 32) with
    | [] => none
    | _ :: args => some (Utf8.text args)

/-- What has been sent when commands are sent one after the other. -/
def sendAll (sent : Octets) (commands : List Command) : Octets :=
  commands.foldl (fun sent c => (send sent c).1) sent

def accepted (commands : List Command) : List Command := commands.filter fun c => ¬c.Refused

/-! ## One command -/

theorem line_eq (c : Command) : c.line = c.body ++ [cr, lf] := by
  obtain ⟨verb, args⟩ := c
  cases args with
  | none => rfl
  | some args => rfl

theorem send_of_refused {c : Command} (h : c.Refused) (sent : Octets) :
    send sent c =
      (sent, some (.malformed ("refusing to send invalid command \"" ++ c.verb ++ "\""))) := by
  have hsendable : ¬c.isSendable = true := by
    rw [isSendable_iff, not_not]
    exact h
  simp [send, encode, hsendable]

theorem send_of_not_refused {c : Command} (h : ¬c.Refused) (sent : Octets) :
    send sent c = (sent ++ c.line, none) := by
  simp [send, encode, isSendable_iff.mpr h]

theorem notMem_verb_of_isBlank {c : Command} (h : ¬c.Refused) (ch : Char)
    (hch : Text.isBlank ch = true) : ch ∉ c.verb.toList := by
  intro hmem
  apply h
  exact .inr (.inl ⟨ch, hmem, hch⟩)

theorem notMem_args {c : Command} (h : ¬c.Refused) {args : String} (hargs : c.args = some args) :
    '\r' ∉ args.toList ∧ '\n' ∉ args.toList := by
  constructor
  · intro hcr
    exact h (.inr (.inr ⟨args, hargs, .inl hcr⟩))
  · intro hlf
    exact h (.inr (.inr ⟨args, hargs, .inr hlf⟩))

/-- The line of a command holds no line end, since the verb has no blank in it. -/
theorem notMem_body {c : Command} (h : ¬c.Refused) : cr ∉ c.body ∧ lf ∉ c.body := by
  have hverb : cr ∉ ofText c.verb ∧ lf ∉ ofText c.verb := by
    constructor
    · exact cr_notMem_ofText (notMem_verb_of_isBlank h _ (by decide))
    · exact lf_notMem_ofText (notMem_verb_of_isBlank h _ (by decide))
  cases hargs : c.args with
  | none => simpa [body, hargs] using hverb
  | some args =>
    obtain ⟨hcr, hlf⟩ := notMem_args h hargs
    simp [body, hargs, hverb, cr_notMem_ofText hcr, lf_notMem_ofText hlf,
      show cr ≠ 32 by decide, show lf ≠ 32 by decide]

/-- The first blank of a line is the one after the verb, since there is none in the verb. -/
theorem ofBody_body {c : Command} (h : ¬c.Refused) : ofBody c.body = c := by
  have hblank : ∀ b ∈ ofText c.verb, (b != 32) = true := by
    intro b hb
    have hnotMem : (32 : UInt8) ∉ ofText c.verb := by
      intro hmem
      apply notMem_verb_of_isBlank h ' ' (by decide)
      exact mem_toList_of_mem_ofText (by decide) hmem
    simpa using ne_of_mem_of_not_mem hb hnotMem
  obtain ⟨verb, args⟩ := c
  cases args with
  | none =>
    have htake : (ofText verb).takeWhile (· != 32) = ofText verb :=
      List.takeWhile_eq_self_iff.mpr hblank
    have hdrop : (ofText verb).dropWhile (· != 32) = [] := List.dropWhile_eq_nil_iff.mpr hblank
    simp [ofBody, body, htake, hdrop]
  | some args =>
    simp [ofBody, body, List.takeWhile_append_of_pos hblank, List.dropWhile_append_of_pos hblank]

/-! ## One command after the other -/

theorem sendAll_eq (sent : Octets) (commands : List Command) :
    sendAll sent commands = sent ++ (accepted commands).flatMap line := by
  induction commands generalizing sent with
  | nil => simp [sendAll, accepted]
  | cons c commands ih =>
    have hcons : sendAll sent (c :: commands) = sendAll (send sent c).1 commands := rfl
    by_cases h : c.Refused
    · have haccepted : accepted (c :: commands) = accepted commands := by simp [accepted, h]
      rw [hcons, send_of_refused h, ih, haccepted]
    · have haccepted : accepted (c :: commands) = c :: accepted commands := by simp [accepted, h]
      calc sendAll sent (c :: commands)
        _ = sendAll (sent ++ line c) commands := by rw [hcons, send_of_not_refused h]
        _ = sent ++ line c ++ (accepted commands).flatMap line := ih _
        _ = sent ++ (accepted (c :: commands)).flatMap line := by
          rw [haccepted, List.flatMap_cons, List.append_assoc]

theorem splitCrLf_flatMap_line {commands : List Command} (h : ∀ c ∈ commands, ¬c.Refused) :
    splitCrLf (commands.flatMap line) = commands.map body ++ [[]] := by
  induction commands with
  | nil => rfl
  | cons c commands ih =>
    obtain ⟨hc, hcommands⟩ := List.forall_mem_cons.mp h
    have hline : (c :: commands).flatMap line = c.body ++ cr :: lf :: commands.flatMap line := by
      simp [line_eq]
    rw [hline, splitCrLf_append (notMem_body hc).1, ih hcommands]
    rfl

theorem not_refused_of_mem_accepted {commands : List Command} :
    ∀ c ∈ accepted commands, ¬c.Refused := by
  intro c hc
  simpa using (List.mem_filter.mp hc).2

theorem map_ofBody_body {commands : List Command} (h : ∀ c ∈ commands, ¬c.Refused) :
    (commands.map body).map ofBody = commands := by
  calc (commands.map body).map ofBody
    _ = commands.map (ofBody ∘ body) := List.map_map
    _ = commands.map id := List.map_congr_left fun c hc => ofBody_body (h c hc)
    _ = commands := List.map_id commands

/-- Different commands that are not refused have different lines. -/
theorem eq_of_flatMap_line_eq {commands others : List Command} (h : ∀ c ∈ commands, ¬c.Refused)
    (hothers : ∀ c ∈ others, ¬c.Refused)
    (heq : others.flatMap line = commands.flatMap line) : others = commands := by
  have hpieces := congrArg splitCrLf heq
  rw [splitCrLf_flatMap_line h, splitCrLf_flatMap_line hothers] at hpieces
  have hbodies := congrArg (List.map ofBody) (List.append_cancel_right hpieces)
  rwa [map_ofBody_body h, map_ofBody_body hothers] at hbodies

/-- A refused command leaves what has been sent as it is, and any other adds one line to it.  The
commands that were not refused are read off the lines that were added; so octets that were added are
added for these commands alone. -/
theorem sendAll_unambiguous (sent : Octets) (commands : List Command) :
    (∀ c buffer, c.Refused → ∃ text, send buffer c = (buffer, some (.malformed text))) ∧
      (∀ c buffer, ¬c.Refused → ∃ line, cr ∉ line ∧ lf ∉ line ∧
        send buffer c = (buffer ++ line ++ [cr, lf], none)) ∧
      (∃ added lines, sendAll sent commands = sent ++ added ∧ splitCrLf added = lines ++ [[]] ∧
        lines.map ofBody = accepted commands) ∧
      ∀ others buffer added, sendAll sent commands = sent ++ added →
        sendAll buffer others = buffer ++ added → accepted others = accepted commands := by
  refine ⟨?_, ?_, ?_, ?_⟩
  · intro c buffer h
    exact ⟨_, send_of_refused h buffer⟩
  · intro c buffer h
    obtain ⟨hcr, hlf⟩ := notMem_body h
    refine ⟨c.body, hcr, hlf, ?_⟩
    rw [send_of_not_refused h, line_eq, List.append_assoc]
  · exact ⟨_, _, sendAll_eq sent commands, splitCrLf_flatMap_line not_refused_of_mem_accepted,
      map_ofBody_body not_refused_of_mem_accepted⟩
  · intro others buffer added hcommands hothers
    rw [sendAll_eq] at hcommands hothers
    apply eq_of_flatMap_line_eq not_refused_of_mem_accepted not_refused_of_mem_accepted
    calc (accepted others).flatMap line
      _ = added := List.append_cancel_left hothers
      _ = (accepted commands).flatMap line := (List.append_cancel_left hcommands).symm

end Command

end FaxClient
