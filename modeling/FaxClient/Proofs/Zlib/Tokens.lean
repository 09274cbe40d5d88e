import FaxClient.Proofs.Zlib.Matching
import FaxClient.Proofs.Zlib.Reading

/-!
# Reading tokens

The words of the fixed code lead to their symbols, and the extra bits of a range tell each of its
values, so a reader takes the bits of a token for that token.
-/

namespace FaxClient.Zlib

open Deflate (Token numberBits literalWord tokenBits)

/-! ## Tables -/

section

set_option maxRecDepth 20000

theorem walk_literalWord :
    ∀ symbol < 288, Inflate.fixedCodes.literals.walk (literalWord symbol) = some symbol := by
  decide +kernel

theorem walk_distanceWord :
    ∀ symbol < 32, Inflate.fixedCodes.distances.walk (Huffman.word 5 symbol) = some symbol := by
  decide +kernel

end

/-- Each range ends where the next begins, or at the limit, and its extra bits choose any value up
to there. -/
def Spans (ranges : List (Nat × Nat)) (limit : Nat) : Prop :=
  ∀ i (h : i < ranges.length),
    ((ranges[i + 1]?).map Prod.fst).getD limit ≤ ranges[i].1 + 2 ^ ranges[i].2

theorem spans_lengthRanges : Spans lengthRanges (Deflate.maxMatch + 1) := by
  unfold Spans
  decide

theorem spans_distanceRanges : Spans distanceRanges (Deflate.maxDistance + 1) := by
  unfold Spans
  decide

theorem getLast?_filter_eq_some {α : Type} {p : α → Bool} {l : List α} (h : ∃ a ∈ l, p a) :
    ∃ l₁ a l₂, l = l₁ ++ a :: l₂ ∧ (l.filter p).getLast? = some a ∧ p a ∧
      ∀ b ∈ l₂, p b = false := by
  induction l using List.reverseRecOn with
  | nil => simp at h
  | append_singleton l a ih =>
    by_cases ha : p a
    · exact ⟨l, a, [], rfl, by simp [ha], ha, by simp⟩
    · rw [Bool.not_eq_true] at ha
      have hl : ∃ b ∈ l, p b := by
        obtain ⟨b, hb, hpb⟩ := h
        rcases List.mem_append.mp hb with hb | hb
        · exact ⟨b, hb, hpb⟩
        · rw [List.mem_singleton.mp hb, ha] at hpb
          cases hpb
      obtain ⟨l₁, b, l₂, hsplit, hlast, hb, hlater⟩ := ih hl
      refine ⟨l₁, b, l₂ ++ [a], by rw [hsplit]; simp, by simpa [ha] using hlast, hb, ?_⟩
      intro c hc
      rcases List.mem_append.mp hc with hc | hc
      · exact hlater c hc
      · rw [List.mem_singleton.mp hc, ha]

/-- The range of a value begins at or below it, and its extra bits can tell the value. -/
theorem rangeOf_of_spans {ranges : List (Nat × Nat)} {limit value : Nat} (h : Spans ranges limit)
    {first : Nat × Nat} (hfirst : ranges[0]? = some first) (hle : first.1 ≤ value)
    (hlt : value < limit) :
    ∃ i least extra, rangeOf ranges value = (i, least, extra) ∧ ranges[i]? = some (least, extra) ∧
      least ≤ value ∧ value - least < 2 ^ extra := by
  have hsome : ∃ r ∈ ranges.zipIdx, decide (r.1.1 ≤ value) = true :=
    ⟨(first, 0), List.mk_mem_zipIdx_iff_getElem?.mpr hfirst, by simpa using hle⟩
  obtain ⟨l₁, ⟨⟨least, extra⟩, i⟩, l₂, hsplit, hlast, hbelow, habove⟩ :=
    getLast?_filter_eq_some hsome
  have hindex : ranges.zipIdx[l₁.length]? = some ((least, extra), i) := by simp [hsplit]
  obtain ⟨hrange, hi⟩ : ranges[l₁.length]? = some (least, extra) ∧ l₁.length = i := by
    rw [List.getElem?_zipIdx] at hindex
    simpa using hindex
  rw [hi] at hrange
  have hnext : value < ((ranges[i + 1]?).map Prod.fst).getD limit := by
    cases hmore : ranges[i + 1]? with
    | none => exact hlt
    | some next =>
      have hindex' : ranges.zipIdx[l₁.length + 1]? = some (next, i + 1) := by
        rw [List.getElem?_zipIdx, hi, hmore]
        simp
      rw [hsplit, List.getElem?_append_right (by omega)] at hindex'
      have hmem : (next, i + 1) ∈ l₂ := by
        apply List.mem_of_getElem? (i := 0)
        simpa using hindex'
      simpa using habove _ hmem
  obtain ⟨hlength, hget⟩ := List.getElem?_eq_some_iff.mp hrange
  have hspan := h i hlength
  rw [hget] at hspan
  have hleast : least ≤ value := by simpa using hbelow
  refine ⟨i, least, extra, by rw [rangeOf, hlast], hrange, hleast, ?_⟩
  simp only at hspan
  omega

/-! ## What a reader makes of a token -/

namespace Inflate.State

def put (s : State) : Token → State
  | .literal b => s.emit b
  | .copy length distance => s.copy distance length

/-- The check is that of what has come out. -/
def Checked (s : State) : Prop := s.check = s.out.foldl Adler32.add .empty

theorem Checked.emit {s : State} (h : s.Checked) (b : UInt8) : (s.emit b).Checked := by
  simp only [Checked, State.emit, Array.foldl_push]
  rw [h]

theorem Checked.copy {s : State} (h : s.Checked) (distance n : Nat) :
    (s.copy distance n).Checked := by
  induction n generalizing s with
  | zero => exact h
  | succ n ih => exact ih (h.emit _)

theorem Checked.put {s : State} (h : s.Checked) (t : Token) : (s.put t).Checked := by
  cases t with
  | literal b => exact h.emit b
  | copy length distance => exact h.copy distance length

theorem out_copy (s : State) (distance n : Nat) :
    (s.copy distance n).out = Deflate.copied s.out distance n := by
  induction n generalizing s with
  | zero => rfl
  | succ n ih => exact ih _

theorem out_put (s : State) (t : Token) : (s.put t).out = Deflate.spelled s.out t := by
  cases t with
  | literal b => rfl
  | copy length distance => exact s.out_copy distance length

theorem last_copy (s : State) (distance n : Nat) : (s.copy distance n).last = s.last := by
  induction n generalizing s with
  | zero => rfl
  | succ n ih => exact ih _

theorem last_put (s : State) (t : Token) : (s.put t).last = s.last := by
  cases t with
  | literal b => rfl
  | copy length distance => exact s.last_copy distance length

theorem reads_literal (s : State) (b : UInt8) :
    Reads (s.literal fixedCodes) (tokenBits (.literal b))
      ((s.put (.literal b)).literal fixedCodes) := by
  have hlt : b.toNat < 256 := b.toNat_lt
  have hreads := s.reads_word (.literals fixedCodes) (walk_literalWord b.toNat (by omega))
  have hsymbol : s.symbol (.literals fixedCodes) b.toNat = (s.emit b).literal fixedCodes := by
    simp [State.symbol, endOfBlock, hlt]
  rw [hsymbol] at hreads
  exact hreads

theorem reads_length (s : State) {i least extra length : Nat}
    (hrange : lengthRanges[i]? = some (least, extra)) (hleast : least ≤ length)
    (hextra : length - least < 2 ^ extra) :
    Reads (s.literal fixedCodes) (literalWord (257 + i) ++ numberBits extra (length - least))
      (s.distance fixedCodes length) := by
  have hi : i < 29 := (List.getElem?_eq_some_iff.mp hrange).1
  have hword := s.reads_word (.literals fixedCodes) (walk_literalWord (257 + i) (by omega))
  have hsymbol : s.symbol (.literals fixedCodes) (257 + i) =
      s.readBits (.lengthBits fixedCodes least extra) := by
    have hrange' : lengthRanges[257 + i - 257]? = some (least, extra) := by
      rwa [Nat.add_sub_cancel_left]
    simp only [State.symbol, endOfBlock, hrange']
    rw [if_neg (by omega), if_neg (by omega)]
  have hbits := s.reads_readBits (.lengthBits fixedCodes least extra) (length - least) hextra
  have hlength : s.number (.lengthBits fixedCodes least extra) (length - least) =
      s.distance fixedCodes length := by
    simp only [number, Nat.add_sub_cancel' hleast]
  rw [hsymbol] at hword
  rw [hlength] at hbits
  exact hword.append hbits

theorem reads_distance (s : State) (length : Nat) {j nearest extra distance : Nat}
    (hrange : distanceRanges[j]? = some (nearest, extra)) (hnearest : nearest ≤ distance)
    (hextra : distance - nearest < 2 ^ extra) :
    Reads (s.distance fixedCodes length) (Huffman.word 5 j ++ numberBits extra (distance - nearest))
      ((s.copy distance length).literal fixedCodes) := by
  have hj : j < 30 := (List.getElem?_eq_some_iff.mp hrange).1
  have hword := s.reads_word (.distances fixedCodes length) (walk_distanceWord j (by omega))
  have hsymbol : s.symbol (.distances fixedCodes length) j =
      s.readBits (.distanceBits fixedCodes length nearest extra) := by
    simp only [State.symbol, hrange]
  have hbits :=
    s.reads_readBits (.distanceBits fixedCodes length nearest extra) (distance - nearest) hextra
  have hcopied : s.number (.distanceBits fixedCodes length nearest extra) (distance - nearest) =
      (s.copy distance length).literal fixedCodes := by
    simp only [number, copied, Nat.add_sub_cancel' hnearest]
  rw [hsymbol] at hword
  rw [hcopied] at hbits
  exact hword.append hbits

theorem reads_token (s : State) {t : Token} (h : t.Sound) :
    Reads (s.literal fixedCodes) (tokenBits t) ((s.put t).literal fixedCodes) := by
  cases t with
  | literal b => exact s.reads_literal b
  | copy length distance =>
    obtain ⟨hlong, hmatch, hback, hnear⟩ := h
    obtain ⟨i, least, extra, hlength, hrange, hleast, hextra⟩ :=
      rangeOf_of_spans spans_lengthRanges rfl hlong (Nat.lt_succ_of_le hmatch)
    obtain ⟨j, nearest, more, hdistance, hrange', hnearest, hmore⟩ :=
      rangeOf_of_spans spans_distanceRanges rfl hback (Nat.lt_succ_of_le hnear)
    have hbits : tokenBits (.copy length distance) =
        (literalWord (257 + i) ++ numberBits extra (length - least)) ++
          (Huffman.word 5 j ++ numberBits more (distance - nearest)) := by
      simp only [tokenBits, hlength, hdistance, List.append_assoc]
    rw [hbits]
    exact (s.reads_length hrange hleast hextra).append
      (s.reads_distance length hrange' hnearest hmore)

theorem reads_tokens (s : State) {ts : List Token} (h : ∀ t ∈ ts, t.Sound) :
    Reads (s.literal fixedCodes) (ts.flatMap tokenBits) ((ts.foldl put s).literal fixedCodes) := by
  induction ts generalizing s with
  | nil => exact .nil _
  | cons t ts ih =>
    rw [List.flatMap_cons, List.foldl_cons]
    exact (s.reads_token (h t List.mem_cons_self)).append
      (ih (s.put t) fun u hu => h u (List.mem_cons_of_mem t hu))

theorem out_foldl_put (s : State) (ts : List Token) :
    (ts.foldl put s).out = ts.foldl Deflate.spelled s.out := by
  induction ts generalizing s with
  | nil => rfl
  | cons t ts ih => rw [List.foldl_cons, List.foldl_cons, ih, out_put]

theorem last_foldl_put (s : State) (ts : List Token) : (ts.foldl put s).last = s.last := by
  induction ts generalizing s with
  | nil => rfl
  | cons t ts ih => rw [List.foldl_cons, ih, last_put]

theorem Checked.foldl_put {s : State} (h : s.Checked) (ts : List Token) :
    (ts.foldl State.put s).Checked := by
  induction ts generalizing s with
  | nil => exact h
  | cons t ts ih => exact ih (h.put t)

/-- The end of the last block is followed by the checksum, at the next octet. -/
theorem reads_endOfBlock {s : State} (h : s.last = true) :
    Reads (s.literal fixedCodes) (literalWord endOfBlock) (s.goto (.aligning .checksum)) := by
  have hword := s.reads_word (.literals fixedCodes) (walk_literalWord endOfBlock (by decide))
  have hsymbol : s.symbol (.literals fixedCodes) endOfBlock = s.goto (.aligning .checksum) := by
    simp [State.symbol, nextBlock, h]
  rwa [hsymbol] at hword

end Inflate.State

end FaxClient.Zlib
