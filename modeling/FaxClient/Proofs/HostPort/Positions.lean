import FaxClient.Proofs.HostPort.Runs
import FaxClient.Proofs.Text.Encoding

/-!
# The search by positions

A text can also be searched by the positions of its octets: a cursor goes on by one octet, or by a
whole run when it stands at a digit, and cuts the run out of the text.  A cut is possible only
between characters.  The cursor may stand within a character, but never when it cuts, because digits
and commas are octets of their own.  It finds what the search by characters finds, and is at the end
after no more rounds than the text has octets, and one.
-/

namespace FaxClient.HostPort

open Octets

def isDigitOctet (b : UInt8) : Bool := 48 ≤ b && b ≤ 57

def inGroupOctet (b : UInt8) : Bool := isDigitOctet b || b == 44

/-- Where a search by positions stands. -/
inductive Cursor where
  | looking (position : Nat)
  | found (e : Endpoint)
  | exhausted
  /-- A cut was to be made within a character. -/
  | torn

/-- The part of a text between two positions, if both of them are between characters. -/
def cut? (text : String) (start stop : Nat) : Option String :=
  if String.Pos.Raw.IsValid text ⟨start⟩ ∧ String.Pos.Raw.IsValid text ⟨stop⟩ then
    some (String.Pos.Raw.extract text ⟨start⟩ ⟨stop⟩)
  else none

namespace Cursor

/-- The positions between which a cut is made in the next round: from a digit up to the first octet
that is neither a digit nor a comma. -/
def slice? (text : String) : Cursor → Option (Nat × Nat)
  | looking i =>
    let rest := (ofText text).drop i
    if rest.head?.any isDigitOctet then some (i, i + (rest.takeWhile inGroupOctet).length) else none
  | _ => none

def advance (text : String) (c : Cursor) : Cursor :=
  match c with
  | looking i =>
    if i < text.utf8ByteSize then
      match c.slice? text with
      | none => looking (i + 1)
      | some (start, stop) =>
        match cut? text start stop with
        | none => torn
        | some group =>
          match group? group.toList with
          | some e => found e
          | none => looking stop
    else exhausted
  | _ => c

/-- The end of a search that finds what is given. -/
def ofFound : Option Endpoint → Cursor
  | some e => found e
  | none => exhausted

end Cursor

/-! ## Characters and their octets -/

theorem isDigit_eq_decide (c : Char) : isDigit c = decide (48 ≤ c.toNat ∧ c.toNat ≤ 57) := by
  rw [isDigit, ← Bool.decide_and]
  rfl

theorem inGroup_eq_decide (c : Char) :
    inGroup c = decide ((48 ≤ c.toNat ∧ c.toNat ≤ 57) ∨ c.toNat = 44) := by
  have hcomma : (c == ',') = decide (c.toNat = 44) := by
    rw [Bool.beq_eq_decide_eq]
    exact decide_eq_decide.mpr Char.toNat_inj.symm
  rw [inGroup, isDigit_eq_decide, hcomma, Bool.decide_or]

theorem isDigitOctet_eq_decide (b : UInt8) :
    isDigitOctet b = decide (48 ≤ b.toNat ∧ b.toNat ≤ 57) := by
  rw [isDigitOctet, ← Bool.decide_and]
  rfl

theorem inGroupOctet_eq_decide (b : UInt8) :
    inGroupOctet b = decide ((48 ≤ b.toNat ∧ b.toNat ≤ 57) ∨ b.toNat = 44) := by
  have hcomma : (b == 44) = decide (b.toNat = 44) := by
    rw [Bool.beq_eq_decide_eq]
    exact decide_eq_decide.mpr UInt8.toNat_inj.symm
  rw [inGroupOctet, isDigitOctet_eq_decide, hcomma, Bool.decide_or]

/-- Only the first octet of a character can be a digit or a comma, and then the character is that
digit or comma and has no other octet. -/
theorem exists_octets (c : Char) :
    ∃ b inside, String.utf8EncodeChar c = b :: inside ∧ (∀ d ∈ inside, 128 ≤ d) ∧
      isDigitOctet b = isDigit c ∧ inGroupOctet b = inGroup c ∧ (inGroup c = true → inside = []) := by
  by_cases h : c.toNat ≤ 127
  · have hoctets : String.utf8EncodeChar c = [UInt8.ofNat c.toNat] := by
      simp [String.utf8EncodeChar, h]
    have htoNat : (UInt8.ofNat c.toNat).toNat = c.toNat :=
      UInt8.toNat_ofNat_of_lt' (Nat.lt_of_le_of_lt h (by decide))
    refine ⟨_, [], hoctets, by simp, ?_, ?_, fun _ => rfl⟩
    · rw [isDigitOctet_eq_decide, isDigit_eq_decide, htoNat]
    · rw [inGroupOctet_eq_decide, inGroup_eq_decide, htoNat]
  · have hhigh : ∀ d ∈ String.utf8EncodeChar c, 128 ≤ d := by
      intro d hd
      by_contra hlt
      rw [← eq_of_mem_utf8EncodeChar (UInt8.not_le.mp hlt) hd, Char.toNat_ofNat] at h
      have hd : d.toNat < 128 := UInt8.not_le.mp hlt
      split at h <;> omega
    have hne : String.utf8EncodeChar c ≠ [] := String.utf8EncodeChar_ne_nil
    obtain ⟨b, inside, hoctets⟩ := List.exists_cons_of_ne_nil hne
    rw [hoctets] at hhigh
    have hb : 128 ≤ b.toNat := hhigh b List.mem_cons_self
    have hgroup : inGroup c = false := by
      rw [inGroup_eq_decide]
      exact decide_eq_false (by omega)
    refine ⟨b, inside, hoctets, fun d hd => hhigh d (List.mem_cons_of_mem b hd), ?_, ?_, ?_⟩
    · rw [isDigitOctet_eq_decide, isDigit_eq_decide]
      exact decide_eq_decide.mpr (by omega)
    · rw [inGroupOctet_eq_decide, hgroup]
      exact decide_eq_false (by omega)
    · simp [hgroup]

theorem inGroupOctet_of_mem_flatMap {run : List Char} (h : ∀ d ∈ run, inGroup d = true) :
    ∀ b ∈ run.flatMap String.utf8EncodeChar, inGroupOctet b = true := by
  intro b hb
  obtain ⟨d, hd, hb⟩ := List.mem_flatMap.mp hb
  obtain ⟨a, inside, hoctets, -, -, hgroup, hsingle⟩ := exists_octets d
  rw [hoctets, hsingle (h d hd), List.mem_singleton] at hb
  rw [hb, hgroup, h d hd]

theorem inGroupOctet_head_flatMap {rest : List Char} (h : ∀ d ∈ rest.head?, inGroup d = false) :
    ∀ b ∈ (rest.flatMap String.utf8EncodeChar).head?, inGroupOctet b = false := by
  cases rest with
  | nil => simp
  | cons d rest =>
    obtain ⟨a, inside, hoctets, -, -, hgroup, -⟩ := exists_octets d
    simp [hoctets, hgroup, h d rfl]

/-! ## What remains of a text -/

/-- From a position on there remain some octets of a character that has begun and then whole
characters. -/
def Remains (text : String) (i : Nat) (inside : Octets) (rest : List Char) : Prop :=
  ∃ passed taken, text.toList = passed ++ rest ∧
    passed.flatMap String.utf8EncodeChar = taken ++ inside ∧ taken.length = i ∧
    ∀ b ∈ inside, 128 ≤ b

namespace Remains

variable {text : String} {i : Nat} {b : UInt8} {inside : Octets} {c : Char} {run rest : List Char}

theorem zero (text : String) : Remains text 0 [] text.toList :=
  ⟨[], [], rfl, rfl, rfl, by simp⟩

theorem drop_eq (h : Remains text i inside rest) :
    (ofText text).drop i = inside ++ rest.flatMap String.utf8EncodeChar := by
  obtain ⟨passed, taken, htext, hpassed, rfl, -⟩ := h
  calc (ofText text).drop taken.length
    _ = (passed.flatMap String.utf8EncodeChar ++ rest.flatMap String.utf8EncodeChar).drop
        taken.length := by rw [ofText, htext, List.flatMap_append]
    _ = inside ++ rest.flatMap String.utf8EncodeChar := by
      rw [hpassed, List.append_assoc, List.drop_left]

theorem within (h : Remains text i (b :: inside) rest) : Remains text (i + 1) inside rest := by
  obtain ⟨passed, taken, htext, hpassed, rfl, hhigh⟩ := h
  refine ⟨passed, taken ++ [b], htext, ?_, by simp, (List.forall_mem_cons.mp hhigh).2⟩
  simp [hpassed]

theorem into (h : Remains text i [] (c :: rest)) (hc : String.utf8EncodeChar c = b :: inside)
    (hinside : ∀ d ∈ inside, 128 ≤ d) : Remains text (i + 1) inside rest := by
  obtain ⟨passed, taken, htext, hpassed, rfl, -⟩ := h
  refine ⟨passed ++ [c], taken ++ [b], by simp [htext], ?_, by simp, hinside⟩
  simp [hpassed, hc]

theorem past (h : Remains text i [] (run ++ rest)) :
    Remains text (i + (run.flatMap String.utf8EncodeChar).length) [] rest := by
  obtain ⟨passed, taken, htext, hpassed, rfl, hhigh⟩ := h
  refine ⟨passed ++ run, taken ++ run.flatMap String.utf8EncodeChar, by simp [htext], ?_, by simp,
    hhigh⟩
  simpa using hpassed

theorem exists_passed (h : Remains text i [] rest) :
    ∃ passed, text = String.ofList (passed ++ rest) ∧ i = String.utf8Len passed := by
  obtain ⟨passed, taken, htext, hpassed, rfl, -⟩ := h
  refine ⟨passed, by rw [← htext, String.ofList_toList], ?_⟩
  rw [← length_flatMap_utf8EncodeChar, hpassed, List.append_nil]

/-- A position is between characters if no octets of a character that has begun remain. -/
theorem isValid (h : Remains text i [] rest) : String.Pos.Raw.IsValid text ⟨i⟩ := by
  obtain ⟨passed, rfl, rfl⟩ := h.exists_passed
  rw [String.Pos.Raw.isValid_iff_exists_append]
  refine ⟨String.ofList passed, String.ofList rest, String.ofList_append, ?_⟩
  rw [← String.utf8ByteSize_ofList]
  rfl

theorem cut?_eq (h : Remains text i [] (run ++ rest)) :
    cut? text i (i + (run.flatMap String.utf8EncodeChar).length) = some (String.ofList run) := by
  rw [cut?, if_pos ⟨h.isValid, h.past.isValid⟩, length_flatMap_utf8EncodeChar]
  obtain ⟨passed, rfl, rfl⟩ := h.exists_passed
  rw [← List.append_assoc, String.extract_of_valid]

end Remains

/-! ## One round -/

open Cursor

theorem slice?_of_drop_eq_nil {text : String} {i : Nat} (h : (ofText text).drop i = []) :
    text.utf8ByteSize ≤ i ∧ slice? text (looking i) = none := by
  refine ⟨?_, by simp [slice?, h]⟩
  rwa [← length_ofText, ← List.drop_eq_nil_iff]

theorem slice?_of_drop_eq_cons {text : String} {i : Nat} {b : UInt8} {octets : Octets}
    (h : (ofText text).drop i = b :: octets) :
    i < text.utf8ByteSize ∧ slice? text (looking i) = if isDigitOctet b then
      some (i, i + ((b :: octets).takeWhile inGroupOctet).length) else none := by
  refine ⟨?_, by simp [slice?, h]⟩
  rw [← length_ofText]
  apply List.length_lt_of_drop_ne_nil
  simp [h]

/-- What a round comes upon where the cursor looks: the end, an octet that is no digit, or a run,
which it can cut out of the text. -/
inductive Meets (text : String) (i : Nat) (rest : List Char) : Prop where
  | ending (outside : text.utf8ByteSize ≤ i) (no_slice : slice? text (looking i) = none)
      (find_eq : find? rest = none)
  | octet (inside : Octets) (later : List Char) (lt_size : i < text.utf8ByteSize)
      (no_slice : slice? text (looking i) = none) (remains : Remains text (i + 1) inside later)
      (find_eq : find? rest = find? later)
  | run (stop : Nat) (group : String) (later : List Char) (lt_size : i < text.utf8ByteSize)
      (lt_stop : i < stop) (slice_eq : slice? text (looking i) = some (i, stop))
      (start_isValid : String.Pos.Raw.IsValid text ⟨i⟩)
      (stop_isValid : String.Pos.Raw.IsValid text ⟨stop⟩) (cut_eq : cut? text i stop = some group)
      (remains : Remains text stop [] later)
      (find_eq : find? rest = (group? group.toList).or (find? later))

namespace Remains

variable {text : String} {i : Nat} {b : UInt8} {inside : Octets} {c : Char} {rest : List Char}

/-- Within a character no octet is a digit. -/
theorem meets_within (h : Remains text i (b :: inside) rest) : Meets text i rest := by
  obtain ⟨hlt, hslice⟩ := slice?_of_drop_eq_cons h.drop_eq
  have hb : isDigitOctet b = false := by
    obtain ⟨_, _, _, _, _, hhigh⟩ := h
    have hb : 128 ≤ b.toNat := hhigh b List.mem_cons_self
    rw [isDigitOctet_eq_decide]
    exact decide_eq_false (by omega)
  rw [hb] at hslice
  exact .octet inside rest hlt hslice h.within rfl

/-- The run that begins with a digit ends with an octet of its own, so it can be cut out. -/
theorem meets_run (h : Remains text i [] (c :: rest)) (hc : isDigit c = true) :
    Meets text i (c :: rest) := by
  obtain ⟨run, rest, rfl, hrun, hrest⟩ := Text.exists_span inGroup rest
  have hall : ∀ d ∈ c :: run, inGroup d = true :=
    List.forall_mem_cons.mpr ⟨by simp [inGroup, hc], hrun⟩
  have hdrop := h.drop_eq
  obtain ⟨b, inside, hoctets, -, hdigit, -, -⟩ := exists_octets c
  rw [List.nil_append, List.flatMap_cons, hoctets, List.cons_append] at hdrop
  obtain ⟨hlt, hslice⟩ := slice?_of_drop_eq_cons hdrop
  have hpart : b :: (inside ++ (run ++ rest).flatMap String.utf8EncodeChar) =
      (c :: run).flatMap String.utf8EncodeChar ++ rest.flatMap String.utf8EncodeChar := by
    simp [hoctets]
  have htake := Text.takeWhile_append_of_head (inGroupOctet_of_mem_flatMap hall)
    (inGroupOctet_head_flatMap hrest)
  rw [hdigit, hc, if_pos rfl, hpart, htake] at hslice
  have hpos : 0 < ((c :: run).flatMap String.utf8EncodeChar).length := by
    simp [hoctets]
  have hremains : Remains text i [] ((c :: run) ++ rest) := h
  refine .run _ _ rest hlt (Nat.lt_add_of_pos_right hpos) hslice h.isValid hremains.past.isValid
    hremains.cut?_eq hremains.past ?_
  rw [String.toList_ofList]
  exact find?_run hc hrun hrest

theorem meets (h : Remains text i inside rest) : Meets text i rest := by
  cases inside with
  | cons b inside => exact h.meets_within
  | nil =>
    cases rest with
    | nil =>
      obtain ⟨hle, hslice⟩ := slice?_of_drop_eq_nil h.drop_eq
      exact .ending hle hslice find?_nil
    | cons c rest =>
      cases hd : isDigit c with
      | true => exact h.meets_run hd
      | false =>
        have hdrop := h.drop_eq
        obtain ⟨b, inside, hc, hinside, hdigit, -, -⟩ := exists_octets c
        rw [List.nil_append, List.flatMap_cons, hc, List.cons_append] at hdrop
        obtain ⟨hlt, hslice⟩ := slice?_of_drop_eq_cons hdrop
        rw [hdigit, hd] at hslice
        exact .octet inside rest hlt hslice (h.into hc hinside) (find?_skip hd rest)

/-- A round ends the search with what is found, or leaves the cursor further on with the same to
find. -/
theorem advance_eq (h : Remains text i inside rest) :
    advance text (looking i) = ofFound (find? rest) ∨
      ∃ j inside' later, i < j ∧ advance text (looking i) = looking j ∧
        Remains text j inside' later ∧ find? rest = find? later := by
  cases h.meets with
  | ending hle hslice hnone =>
    left
    simp [advance, Nat.not_lt.mpr hle, hnone, ofFound]
  | octet inside' later hlt hslice hlater hfind =>
    right
    refine ⟨i + 1, inside', later, Nat.lt_succ_self i, ?_, hlater, hfind⟩
    simp [advance, hlt, hslice]
  | run stop group later hlt hstop hslice hstart hend hcut hlater hfind =>
    cases hgroup : group? group.toList with
    | some e =>
      left
      simp [advance, hlt, hslice, hcut, hgroup, hfind, ofFound]
    | none =>
      right
      rw [hgroup, Option.none_or] at hfind
      refine ⟨stop, [], later, hstop, ?_, hlater, hfind⟩
      simp [advance, hlt, hslice, hcut, hgroup]

theorem le (h : Remains text i inside rest) : i ≤ text.utf8ByteSize := by
  obtain ⟨passed, taken, htext, hpassed, rfl, -⟩ := h
  rw [← length_ofText, ofText, htext, List.flatMap_append, hpassed]
  simp

end Remains

/-! ## The whole search -/

theorem advance_ofFound (text : String) (found : Option Endpoint) :
    advance text (ofFound found) = ofFound found := by
  cases found <;> rfl

/-- After some rounds the search is at its end, or it has gone on by at least as many octets and what
remains decides what is found. -/
theorem advance_iterate (text : String) (rounds : Nat) :
    (advance text)^[rounds] (looking 0) = ofFound (find? text.toList) ∨
      ∃ i inside rest, rounds ≤ i ∧ (advance text)^[rounds] (looking 0) = looking i ∧
        Remains text i inside rest ∧ find? text.toList = find? rest := by
  induction rounds with
  | zero => exact .inr ⟨0, [], text.toList, le_rfl, rfl, .zero text, rfl⟩
  | succ rounds ih =>
    rw [Function.iterate_succ_apply']
    rcases ih with hend | ⟨i, inside, rest, hle, hlooking, hrest, hfind⟩
    · rw [hend]
      exact .inl (advance_ofFound text _)
    · rw [hlooking, hfind]
      rcases hrest.advance_eq with hend | ⟨j, inside', rest', hlt, hnext, hrest', hfind'⟩
      · exact .inl hend
      · exact .inr ⟨j, inside', rest', by omega, hnext, hrest', hfind'⟩

/-- The search is at its end after at most one round more than the text has octets. -/
theorem advance_iterate_of_lt {text : String} {rounds : Nat} (h : text.utf8ByteSize < rounds) :
    (advance text)^[rounds] (looking 0) = ofFound (find? text.toList) := by
  rcases advance_iterate text rounds with hend | ⟨i, inside, rest, hle, -, hrest, -⟩
  · exact hend
  · exact absurd hrest.le (by omega)

/-- Every cut is made between characters. -/
theorem isValid_of_slice? {text : String} {rounds start stop : Nat}
    (h : slice? text ((advance text)^[rounds] (looking 0)) = some (start, stop)) :
    start < stop ∧ String.Pos.Raw.IsValid text ⟨start⟩ ∧ String.Pos.Raw.IsValid text ⟨stop⟩ := by
  rcases advance_iterate text rounds with hend | ⟨i, inside, rest, -, hlooking, hrest, -⟩
  · rw [hend] at h
    cases hfind : find? text.toList <;> simp [hfind, ofFound, slice?] at h
  · rw [hlooking] at h
    cases hrest.meets with
    | ending _ hslice => simp [hslice] at h
    | octet _ _ _ hslice => simp [hslice] at h
    | run _ _ _ _ hlt hslice hstart hstop =>
      rw [hslice] at h
      cases h
      exact ⟨hlt, hstart, hstop⟩

/-- What is found in a text is the endpoint of the first run, without the commas that lead it, that is
a group; without such a run the text is malformed.  A search by positions ends with the same, within
one round more than the text has octets, and makes each of its cuts between characters. -/
theorem parse_finds_first (text : String) :
    (∀ e, parse text = .ok e ↔ ∃ earlier run later, runs text.toList = earlier ++ run :: later ∧
        Writes run e ∧ ∀ other ∈ earlier, ∀ e, ¬Writes other e) ∧
      (parse text = .error (.malformed ("no host-port group in \"" ++ text ++ "\"")) ↔
        ∀ run ∈ runs text.toList, ∀ e, ¬Writes run e) ∧
      (∀ rounds, text.utf8ByteSize < rounds → (advance text)^[rounds] (looking 0) =
        match parse text with
        | .ok e => found e
        | .error _ => exhausted) ∧
      ∀ rounds start stop,
        slice? text ((advance text)^[rounds] (looking 0)) = some (start, stop) →
          start < stop ∧ String.Pos.Raw.IsValid text ⟨start⟩ ∧
            String.Pos.Raw.IsValid text ⟨stop⟩ := by
  refine ⟨?_, ?_, ?_, fun _ _ _ => isValid_of_slice?⟩
  · intro e
    rw [parse_eq_ok_iff, find?_eq_some_iff]
  · rw [parse_eq_error_iff, find?_eq_none_iff]
    exact and_iff_left rfl
  · intro rounds hrounds
    rw [advance_iterate_of_lt hrounds, parse]
    cases find? text.toList <;> rfl

end FaxClient.HostPort
