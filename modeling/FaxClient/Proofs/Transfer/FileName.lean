import FaxClient.Proofs.Text.Span
import FaxClient.Transfer.FileName

/-!
# Announced file names

A text announces a file name behind its first `FILE:`: after blanks, and up to the closing
punctuation at the end of the word.  The name that is found in a text is the one that it announces,
and none is found only if it announces none.
-/

namespace FaxClient.Transfer.FileName

/-- The parts of a text that announces a name. -/
structure Announcement where
  before : String
  blanks : String
  name : String
  closing : String
  after : String
  marker_notInfix : ¬"FILE:".toList <:+: before.toList
  isBlank_of_mem_blanks : ∀ c ∈ blanks.toList, Text.isBlank c = true
  name_ne_empty : name ≠ ""
  not_isBlank_of_mem_name : ∀ c ∈ name.toList, Text.isBlank c = false
  name_not_endsClosing : ∀ c ∈ name.toList.getLast?, c ≠ ')' ∧ c ≠ '.' ∧ c ≠ ','
  isClosing_of_mem_closing : ∀ c ∈ closing.toList, c = ')' ∨ c = '.' ∨ c = ','
  after_beginsBlank : ∀ c ∈ after.toList.head?, Text.isBlank c = true

def Announcement.text (a : Announcement) : String :=
  a.before ++ "FILE:" ++ a.blanks ++ a.name ++ a.closing ++ a.after

/-! ## The marker -/

/-- The first character of the marker is nowhere else in it, so no marker begins in a text without
one and ends in the marker after it. -/
theorem not_marker_begins {before rest : List Char} (h : ¬marker <:+: before) (hne : before ≠ []) :
    ¬marker <+: before ++ marker ++ rest := by
  intro hbegins
  have hbefore : before <+: before ++ marker ++ rest := by simp
  rcases Nat.le_total marker.length before.length with hle | hle
  · exact h (List.IsPrefix.isInfix (List.prefix_of_prefix_length_le hbegins hbefore hle))
  · obtain ⟨tail, htail⟩ := List.prefix_of_prefix_length_le hbefore hbegins hle
    obtain ⟨more, hmore⟩ := hbegins
    have hcancel : tail ++ more = marker ++ rest := by
      apply List.append_cancel_left
      calc before ++ (tail ++ more) = (before ++ tail) ++ more := (List.append_assoc ..).symm
        _ = before ++ marker ++ rest := by rw [htail, hmore]
        _ = before ++ (marker ++ rest) := List.append_assoc ..
    obtain ⟨c, before, rfl⟩ := List.exists_cons_of_ne_nil hne
    cases tail with
    | nil => exact h (by simp [← htail])
    | cons d tail =>
      -- The marker would begin again with `d`, behind its first character.
      obtain rfl : d = 'F' := (List.cons.inj hcancel).1
      have hmem : 'F' ∈ marker.tail := by simp [← htail]
      exact absurd hmem (by decide)

theorem afterMarker?_append {before : List Char} (h : ¬marker <:+: before) (rest : List Char) :
    afterMarker? (before ++ marker ++ rest) = some rest := by
  induction before with
  | nil => simp [afterMarker?, marker]
  | cons c before ih =>
    have hbegins : ¬marker <+: c :: (before ++ marker ++ rest) :=
      not_marker_begins h (List.cons_ne_nil c before)
    have hbefore : ¬marker <:+: before := fun hwithin => h (List.infix_cons hwithin)
    rw [List.cons_append, List.cons_append, afterMarker?, if_neg (by simpa using hbegins)]
    exact ih hbefore

theorem exists_of_afterMarker? {chars rest : List Char} (h : afterMarker? chars = some rest) :
    ∃ before, chars = before ++ marker ++ rest ∧ ¬marker <:+: before := by
  induction chars with
  | nil => simp [afterMarker?] at h
  | cons c chars ih =>
    rw [afterMarker?] at h
    split at h
    · next hbegins =>
      obtain ⟨tail, htail⟩ := List.isPrefixOf_iff_prefix.mp hbegins
      rw [← htail, List.drop_left] at h
      cases h
      exact ⟨[], by simp [htail], by simp [marker]⟩
    · next hbegins =>
      obtain ⟨before, rfl, hbefore⟩ := ih h
      refine ⟨c :: before, by simp, ?_⟩
      rw [List.infix_cons_iff, not_or]
      refine ⟨fun hfirst => hbegins ?_, hbefore⟩
      rw [List.isPrefixOf_iff_prefix]
      exact hfirst.trans (by simp)

/-! ## The word after the marker -/

theorem firstWord_append {blanks word after : List Char}
    (hblanks : ∀ c ∈ blanks, Text.isBlank c = true)
    (hhead : ∀ c ∈ (word ++ after).head?, Text.isBlank c = false)
    (hword : ∀ c ∈ word, Text.isBlank c = false)
    (hafter : ∀ c ∈ after.head?, Text.isBlank c = true) :
    firstWord (blanks ++ (word ++ after)) = word := by
  rw [firstWord, Text.dropWhile_append_of_head hblanks hhead]
  apply Text.takeWhile_append_of_head
  · simpa using hword
  · simpa using hafter

theorem trim_append {name closing : List Char} (hname : ∀ c ∈ name.getLast?, isClosing c = false)
    (hclosing : ∀ c ∈ closing, isClosing c = true) : trim (name ++ closing) = name := by
  rw [trim, List.reverse_append, Text.dropWhile_append_of_head, List.reverse_reverse]
  · simpa using hclosing
  · simpa [List.head?_reverse] using hname

theorem exists_firstWord (chars : List Char) :
    ∃ blanks after, chars = blanks ++ (firstWord chars ++ after) ∧
      (∀ c ∈ blanks, Text.isBlank c = true) ∧
      (∀ c ∈ firstWord chars, Text.isBlank c = false) ∧
      ∀ c ∈ after.head?, Text.isBlank c = true := by
  obtain ⟨blanks, rest, rfl, hblanks, hhead⟩ := Text.exists_span Text.isBlank chars
  obtain ⟨word, after, rfl, hword, hafter⟩ := Text.exists_span (!Text.isBlank ·) rest
  simp only [Bool.not_eq_true', Bool.not_eq_false'] at hword hafter
  rw [firstWord_append hblanks hhead hword hafter]
  exact ⟨blanks, after, rfl, hblanks, hword, hafter⟩

theorem exists_trim (word : List Char) :
    ∃ closing, word = trim word ++ closing ∧ (∀ c ∈ closing, isClosing c = true) ∧
      ∀ c ∈ (trim word).getLast?, isClosing c = false := by
  obtain ⟨closing, name, hreverse, hclosing, hname⟩ := Text.exists_span isClosing word.reverse
  obtain rfl : word = name.reverse ++ closing.reverse := by
    rw [← List.reverse_append, ← hreverse, List.reverse_reverse]
  have hlast : ∀ c ∈ name.reverse.getLast?, isClosing c = false := by
    simpa [List.getLast?_reverse] using hname
  have hclosing' : ∀ c ∈ closing.reverse, isClosing c = true := by
    simpa using hclosing
  rw [trim_append hlast hclosing']
  exact ⟨closing.reverse, rfl, hclosing', hlast⟩

theorem isClosing_eq_true_iff {c : Char} : isClosing c = true ↔ c = ')' ∨ c = '.' ∨ c = ',' := by
  simp [isClosing, or_assoc]

theorem isBlank_of_isClosing {c : Char} (h : isClosing c = true) : Text.isBlank c = false := by
  rcases isClosing_eq_true_iff.mp h with rfl | rfl | rfl <;> decide

/-! ## The name -/

theorem find?_eq_some_iff {chars name : List Char} :
    find? chars = some name ↔
      ∃ rest, afterMarker? chars = some rest ∧ trim (firstWord rest) = name ∧ name ≠ [] := by
  unfold find?
  cases afterMarker? chars with
  | none => simp
  | some rest =>
    simp only [Option.bind_eq_bind, Option.bind_some, List.isEmpty_iff, Option.some.injEq,
      exists_eq_left']
    split
    · next hnil => simp [hnil, eq_comm]
    · next hne =>
      simp only [Option.some.injEq]
      constructor
      · rintro rfl
        exact ⟨rfl, hne⟩
      · exact And.left

namespace Announcement

variable (a : Announcement)

theorem toList_text : a.text.toList = a.before.toList ++ marker ++
    (a.blanks.toList ++ ((a.name.toList ++ a.closing.toList) ++ a.after.toList)) := by
  simp [text, marker]

theorem isClosing_closing : ∀ c ∈ a.closing.toList, isClosing c = true := by
  intro c hc
  exact isClosing_eq_true_iff.mpr (a.isClosing_of_mem_closing c hc)

theorem not_isClosing_last : ∀ c ∈ a.name.toList.getLast?, isClosing c = false := by
  intro c hc
  have hlast := a.name_not_endsClosing c hc
  rw [Bool.eq_false_iff, Ne, isClosing_eq_true_iff]
  tauto

theorem not_isBlank_word : ∀ c ∈ a.name.toList ++ a.closing.toList, Text.isBlank c = false := by
  intro c hc
  rcases List.mem_append.mp hc with hname | hclosing
  · exact a.not_isBlank_of_mem_name c hname
  · exact isBlank_of_isClosing (a.isClosing_closing c hclosing)

theorem name_ne_nil : a.name.toList ≠ [] := by
  rw [Ne, String.toList_eq_nil_iff]
  exact a.name_ne_empty

/-- The blanks end where the name begins. -/
theorem not_isBlank_head :
    ∀ c ∈ ((a.name.toList ++ a.closing.toList) ++ a.after.toList).head?,
      Text.isBlank c = false := by
  intro c hc
  obtain ⟨d, name, hname⟩ := List.exists_cons_of_ne_nil a.name_ne_nil
  obtain rfl : d = c := by simpa [hname] using hc
  apply a.not_isBlank_of_mem_name
  simp [hname]

theorem find?_text : find? a.text.toList = some a.name.toList := by
  have hmarker := afterMarker?_append a.marker_notInfix
    (a.blanks.toList ++ ((a.name.toList ++ a.closing.toList) ++ a.after.toList))
  rw [← a.toList_text] at hmarker
  refine find?_eq_some_iff.mpr ⟨_, hmarker, ?_, a.name_ne_nil⟩
  rw [firstWord_append a.isBlank_of_mem_blanks a.not_isBlank_head a.not_isBlank_word
    a.after_beginsBlank]
  exact trim_append a.not_isClosing_last a.isClosing_closing

end Announcement

theorem ofText?_text (a : Announcement) : ofText? a.text = some a.name := by
  rw [ofText?, a.find?_text, Option.map_some, String.ofList_toList]

theorem exists_announcement {text name : String} (h : ofText? text = some name) :
    ∃ a : Announcement, a.text = text ∧ a.name = name := by
  obtain ⟨chars, hfind, rfl⟩ := Option.map_eq_some_iff.mp h
  obtain ⟨rest, hrest, rfl, hne⟩ := find?_eq_some_iff.mp hfind
  obtain ⟨before, htext, hbefore⟩ := exists_of_afterMarker? hrest
  obtain ⟨blanks, after, hword, hblanks, hnotBlank, hafter⟩ := exists_firstWord rest
  obtain ⟨closing, htrim, hclosing, hlast⟩ := exists_trim (firstWord rest)
  rw [htrim] at hword hnotBlank
  have hparts := htext.trans (congrArg (before ++ marker ++ ·) hword)
  generalize trim (firstWord rest) = name at hne hnotBlank hlast hparts
  refine ⟨{
    before := String.ofList before
    blanks := String.ofList blanks
    name := String.ofList name
    closing := String.ofList closing
    after := String.ofList after
    marker_notInfix := by simpa [marker] using hbefore
    isBlank_of_mem_blanks := by simpa using hblanks
    name_ne_empty := by simpa using hne
    not_isBlank_of_mem_name := ?_
    name_not_endsClosing := ?_
    isClosing_of_mem_closing := ?_
    after_beginsBlank := by simpa using hafter }, ?_, rfl⟩
  · intro c hc
    rw [String.toList_ofList] at hc
    exact hnotBlank c (List.mem_append_left closing hc)
  · intro c hc
    rw [String.toList_ofList] at hc
    have hclosing := hlast c hc
    rw [Bool.eq_false_iff, Ne, isClosing_eq_true_iff] at hclosing
    tauto
  · intro c hc
    rw [String.toList_ofList] at hc
    exact isClosing_eq_true_iff.mp (hclosing c hc)
  · rw [← String.toList_inj, hparts]
    simp [Announcement.text, marker]

/-- A name is found in a text just if the text announces it; so a text announces no two names, and
nothing is found just if it announces none. -/
theorem ofText?_announced (text : String) :
    (∀ name, ofText? text = some name ↔ ∃ a : Announcement, a.text = text ∧ a.name = name) ∧
      (∀ a b : Announcement, a.text = text → b.text = text → a.name = b.name) ∧
      (ofText? text = none ↔ ∀ a : Announcement, a.text ≠ text) := by
  refine ⟨?_, ?_, ?_⟩
  · intro name
    constructor
    · exact exists_announcement
    · rintro ⟨a, rfl, rfl⟩
      exact ofText?_text a
  · rintro a b rfl hb
    have hname := ofText?_text b
    rw [hb, ofText?_text a] at hname
    exact Option.some.inj hname
  · constructor
    · rintro hnone a rfl
      rw [ofText?_text a] at hnone
      cases hnone
    · intro h
      cases hname : ofText? text with
      | none => rfl
      | some name =>
        obtain ⟨a, ha, -⟩ := exists_announcement hname
        exact absurd ha (h a)

end FaxClient.Transfer.FileName
