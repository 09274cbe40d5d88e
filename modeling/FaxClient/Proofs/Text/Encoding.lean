import FaxClient.Utf8
import Mathlib

/-!
# Reading a text back

The octets of a text are read as that text.  Each character is one octet below 128, or a first octet
that says how many more are owed and what the next must be, and that many octets above 127.  So an
octet below 128 stands for a character wherever it is found in a text.
-/

namespace FaxClient

namespace Utf8

/-! ## What the first octet brings -/

theorem lead_of_lt {b : UInt8} (h : b < 128) : State.lead b = ([Char.ofNat b.toNat], .start) := by
  rw [State.lead, if_pos h]

theorem lead_two (n : Nat) (hlow : 2 ≤ n) (hhigh : n < 32) :
    State.lead (UInt8.ofNat (n + 192)) = ([], .within 1 0x80 0xBF n) := by
  interval_cases n <;> rfl

theorem lead_three (n : Nat) (h : n < 16) :
    State.lead (UInt8.ofNat (n + 224)) =
      ([], .within 2 (if n = 0 then 0xA0 else 0x80) (if n = 13 then 0x9F else 0xBF) n) := by
  interval_cases n <;> rfl

theorem lead_four (n : Nat) (h : n < 5) :
    State.lead (UInt8.ofNat (n + 240)) =
      ([], .within 3 (if n = 0 then 0x90 else 0x80) (if n = 4 then 0x8F else 0xBF) n) := by
  interval_cases n <;> rfl

theorem run_cons_of_lt {b : UInt8} (h : b < 128) (rest : Octets) :
    State.start.run (b :: rest) = Char.ofNat b.toNat :: State.start.run rest := by
  simp [State.run, State.step, lead_of_lt h]

theorem run_cons_of_lead {b : UInt8} {s : State} (h : State.lead b = ([], s)) (rest : Octets) :
    State.start.run (b :: rest) = s.run rest := by
  simp [State.run, State.step, h]

/-! ## The octets that are owed -/

/-- An octet after the first of a character carries six bits. -/
def continuation (n : Nat) : UInt8 := UInt8.ofNat (n % 64 + 128)

theorem toNat_continuation (n : Nat) : (continuation n).toNat = n % 64 + 128 := by
  rw [continuation, UInt8.toNat_ofNat']
  omega

theorem run_within_last {low high : UInt8} (bits : Nat) {n : Nat}
    (hlow : low.toNat ≤ n % 64 + 128) (hhigh : n % 64 + 128 ≤ high.toNat) (rest : Octets) :
    (State.within 1 low high bits).run (continuation n :: rest) =
      Char.ofNat (bits * 64 + n % 64) :: State.start.run rest := by
  have hrange : low ≤ continuation n ∧ continuation n ≤ high := by
    simpa only [UInt8.le_iff_toNat_le, toNat_continuation] using ⟨hlow, hhigh⟩
  simp [State.run, State.step, hrange, toNat_continuation]

theorem run_within_next {low high : UInt8} (owed bits : Nat) {n : Nat}
    (hlow : low.toNat ≤ n % 64 + 128) (hhigh : n % 64 + 128 ≤ high.toNat) (rest : Octets) :
    (State.within (owed + 2) low high bits).run (continuation n :: rest) =
      (State.within (owed + 1) 0x80 0xBF (bits * 64 + n % 64)).run rest := by
  have hrange : low ≤ continuation n ∧ continuation n ≤ high := by
    simpa only [UInt8.le_iff_toNat_le, toNat_continuation] using ⟨hlow, hhigh⟩
  simp [State.run, State.step, hrange, toNat_continuation]

theorem continuation_between (n : Nat) :
    (0x80 : UInt8).toNat ≤ n % 64 + 128 ∧ n % 64 + 128 ≤ (0xBF : UInt8).toNat := by
  rw [show (0x80 : UInt8).toNat = 128 from rfl, show (0xBF : UInt8).toNat = 191 from rfl]
  omega

/-! ## Characters -/

theorem toNat_valid (c : Char) : c.toNat < 0xD800 ∨ 0xDFFF < c.toNat ∧ c.toNat < 0x110000 := c.valid

/-- The second of three octets leaves out the surrogates, and what two octets can hold. -/
theorem second_of_three {n : Nat} (hvalid : n < 0xD800 ∨ 0xDFFF < n ∧ n < 0x110000)
    (hlow : 2047 < n) (hhigh : n ≤ 65535) :
    (if n / 4096 % 16 = 0 then 0xA0 else 0x80 : UInt8).toNat ≤ n / 64 % 64 + 128 ∧
      n / 64 % 64 + 128 ≤ (if n / 4096 % 16 = 13 then 0x9F else 0xBF : UInt8).toNat := by
  have hbounds : (0xA0 : UInt8).toNat = 160 ∧ (0x80 : UInt8).toNat = 128 ∧
      (0x9F : UInt8).toNat = 159 ∧ (0xBF : UInt8).toNat = 191 := ⟨rfl, rfl, rfl, rfl⟩
  constructor <;> split <;> omega

/-- The second of four octets leaves out what three octets can hold, and what is no character. -/
theorem second_of_four {n : Nat} (hlow : 65535 < n) (hhigh : n < 0x110000) :
    (if n / 262144 % 8 = 0 then 0x90 else 0x80 : UInt8).toNat ≤ n / 4096 % 64 + 128 ∧
      n / 4096 % 64 + 128 ≤ (if n / 262144 % 8 = 4 then 0x8F else 0xBF : UInt8).toNat := by
  have hbounds : (0x90 : UInt8).toNat = 144 ∧ (0x80 : UInt8).toNat = 128 ∧
      (0x8F : UInt8).toNat = 143 ∧ (0xBF : UInt8).toNat = 191 := ⟨rfl, rfl, rfl, rfl⟩
  constructor <;> split <;> omega

theorem run_one {n : Nat} (h : n ≤ 127) (rest : Octets) :
    State.start.run (UInt8.ofNat n :: rest) = Char.ofNat n :: State.start.run rest := by
  have hn : (UInt8.ofNat n).toNat = n := by
    rw [UInt8.toNat_ofNat']
    omega
  have hlt : UInt8.ofNat n < 128 := by
    rw [UInt8.lt_iff_toNat_lt, hn]
    exact Nat.lt_succ_of_le h
  rw [run_cons_of_lt hlt, hn]

theorem run_two {n : Nat} (hlow : 127 < n) (hhigh : n ≤ 2047) (rest : Octets) :
    State.start.run (UInt8.ofNat (n / 64 % 32 + 192) :: continuation n :: rest) =
      Char.ofNat n :: State.start.run rest := by
  have hlead := lead_two (n / 64 % 32) (by omega) (by omega)
  have hlast := continuation_between n
  have hbits : n / 64 % 32 * 64 + n % 64 = n := by omega
  rw [run_cons_of_lead hlead, run_within_last _ hlast.1 hlast.2, hbits]

theorem run_three {n : Nat} (hvalid : n < 0xD800 ∨ 0xDFFF < n ∧ n < 0x110000) (hlow : 2047 < n)
    (hhigh : n ≤ 65535) (rest : Octets) :
    State.start.run (UInt8.ofNat (n / 4096 % 16 + 224) :: continuation (n / 64) ::
      continuation n :: rest) = Char.ofNat n :: State.start.run rest := by
  have hlead := lead_three (n / 4096 % 16) (by omega)
  have hsecond := second_of_three hvalid hlow hhigh
  have hlast := continuation_between n
  have hbits : (n / 4096 % 16 * 64 + n / 64 % 64) * 64 + n % 64 = n := by omega
  calc State.start.run (UInt8.ofNat (n / 4096 % 16 + 224) :: continuation (n / 64) ::
      continuation n :: rest)
    _ = (State.within 2 _ _ (n / 4096 % 16)).run (continuation (n / 64) ::
        continuation n :: rest) := run_cons_of_lead hlead _
    _ = (State.within 1 0x80 0xBF (n / 4096 % 16 * 64 + n / 64 % 64)).run
        (continuation n :: rest) := run_within_next 0 _ hsecond.1 hsecond.2 _
    _ = Char.ofNat ((n / 4096 % 16 * 64 + n / 64 % 64) * 64 + n % 64) :: State.start.run rest :=
      run_within_last _ hlast.1 hlast.2 _
    _ = Char.ofNat n :: State.start.run rest := by rw [hbits]

theorem run_four {n : Nat} (hlow : 65535 < n) (hhigh : n < 0x110000) (rest : Octets) :
    State.start.run (UInt8.ofNat (n / 262144 % 8 + 240) :: continuation (n / 4096) ::
      continuation (n / 64) :: continuation n :: rest) = Char.ofNat n :: State.start.run rest := by
  have hlead := lead_four (n / 262144 % 8) (by omega)
  have hsecond := second_of_four hlow hhigh
  have hnext := continuation_between (n / 64)
  have hlast := continuation_between n
  have hbits : ((n / 262144 % 8 * 64 + n / 4096 % 64) * 64 + n / 64 % 64) * 64 + n % 64 = n := by
    omega
  calc State.start.run (UInt8.ofNat (n / 262144 % 8 + 240) :: continuation (n / 4096) ::
      continuation (n / 64) :: continuation n :: rest)
    _ = (State.within 3 _ _ (n / 262144 % 8)).run (continuation (n / 4096) ::
        continuation (n / 64) :: continuation n :: rest) := run_cons_of_lead hlead _
    _ = (State.within 2 0x80 0xBF (n / 262144 % 8 * 64 + n / 4096 % 64)).run
        (continuation (n / 64) :: continuation n :: rest) :=
      run_within_next 1 _ hsecond.1 hsecond.2 _
    _ = (State.within 1 0x80 0xBF
        ((n / 262144 % 8 * 64 + n / 4096 % 64) * 64 + n / 64 % 64)).run
        (continuation n :: rest) := run_within_next 0 _ hnext.1 hnext.2 _
    _ = Char.ofNat (((n / 262144 % 8 * 64 + n / 4096 % 64) * 64 + n / 64 % 64) * 64 + n % 64) ::
        State.start.run rest := run_within_last _ hlast.1 hlast.2 _
    _ = Char.ofNat n :: State.start.run rest := by rw [hbits]

theorem run_utf8EncodeChar (c : Char) (rest : Octets) :
    State.start.run (String.utf8EncodeChar c ++ rest) = c :: State.start.run rest := by
  have hvalid := toNat_valid c
  have hchar : Char.ofNat c.toNat = c := Char.ofNat_toNat c
  have hval : c.val.toNat = c.toNat := rfl
  unfold String.utf8EncodeChar
  simp only [hval]
  generalize c.toNat = n at hvalid hchar
  subst hchar
  split
  · next hone => exact run_one hone rest
  split
  · next hone htwo => exact run_two (Nat.lt_of_not_le hone) htwo rest
  split
  · next _ htwo hthree => exact run_three hvalid (Nat.lt_of_not_le htwo) hthree rest
  · next _ _ hthree => exact run_four (Nat.lt_of_not_le hthree) (by omega) rest

theorem decodeLossy_flatMap_utf8EncodeChar (cs : List Char) :
    decodeLossy (cs.flatMap String.utf8EncodeChar) = cs := by
  induction cs with
  | nil => rfl
  | cons c cs ih =>
    rw [List.flatMap_cons, decodeLossy, run_utf8EncodeChar]
    exact congrArg (c :: ·) ih

theorem decodeLossy_cons_of_lt {b : UInt8} (h : b < 128) (rest : Octets) :
    decodeLossy (b :: rest) = Char.ofNat b.toNat :: decodeLossy rest :=
  run_cons_of_lt h rest

@[simp] theorem decodeLossy_ofText (s : String) : decodeLossy (Octets.ofText s) = s.toList :=
  decodeLossy_flatMap_utf8EncodeChar s.toList

/-- What is put on a connection as a text is read as that text. -/
@[simp] theorem text_ofText (s : String) : text (Octets.ofText s) = s := by
  rw [text, decodeLossy_ofText, String.ofList_toList]

end Utf8

namespace Octets

@[simp] theorem ofText_append (s t : String) : ofText (s ++ t) = ofText s ++ ofText t := by
  simp [ofText]

/-- An octet below 128 is a character of its own. -/
theorem eq_of_mem_utf8EncodeChar {b : UInt8} {c : Char} (hb : b < 128)
    (h : b ∈ String.utf8EncodeChar c) : Char.ofNat b.toNat = c := by
  have hval : c.val.toNat = c.toNat := rfl
  have hmod (n : Nat) : (UInt8.ofNat n).toNat = n % 256 := UInt8.toNat_ofNat'
  rw [← Char.ofNat_toNat c]
  congr 1
  unfold String.utf8EncodeChar at h
  rw [UInt8.lt_iff_toNat_lt, show (128 : UInt8).toNat = 128 from rfl] at hb
  simp only [hval] at h
  generalize c.toNat = n at h
  split at h
  · rw [List.mem_singleton] at h
    rw [h, hmod]
    omega
  -- Every octet of a longer character is 128 or more.
  · split at h
    · simp only [List.mem_cons, List.not_mem_nil, or_false] at h
      rcases h with rfl | rfl <;> rw [hmod] at hb <;> omega
    split at h
    · simp only [List.mem_cons, List.not_mem_nil, or_false] at h
      rcases h with rfl | rfl | rfl <;> rw [hmod] at hb <;> omega
    · simp only [List.mem_cons, List.not_mem_nil, or_false] at h
      rcases h with rfl | rfl | rfl | rfl <;> rw [hmod] at hb <;> omega

theorem mem_toList_of_mem_ofText {b : UInt8} {s : String} (hb : b < 128) (h : b ∈ ofText s) :
    Char.ofNat b.toNat ∈ s.toList := by
  obtain ⟨c, hc, hbc⟩ := List.mem_flatMap.mp h
  rwa [eq_of_mem_utf8EncodeChar hb hbc]

theorem getLast?_toList_of_getLast?_ofText {b : UInt8} {s : String} (hb : b < 128)
    (h : (ofText s).getLast? = some b) : s.toList.getLast? = some (Char.ofNat b.toNat) := by
  unfold ofText at h
  rcases List.eq_nil_or_concat s.toList with hnil | ⟨cs, c, hcs⟩
  · simp [hnil] at h
  · have hne : String.utf8EncodeChar c ≠ [] := String.utf8EncodeChar_ne_nil
    rw [hcs, List.concat_eq_append, List.flatMap_append, List.flatMap_singleton,
      List.getLast?_append_of_ne_nil _ hne] at h
    have hmem : b ∈ String.utf8EncodeChar c := List.mem_of_getLast? h
    simp [hcs, eq_of_mem_utf8EncodeChar hb hmem]

theorem lf_notMem_ofText {s : String} (h : '\n' ∉ s.toList) : lf ∉ ofText s := by
  intro hlf
  apply h
  exact mem_toList_of_mem_ofText (by decide) hlf

theorem cr_notMem_ofText {s : String} (h : '\r' ∉ s.toList) : cr ∉ ofText s := by
  intro hcr
  apply h
  exact mem_toList_of_mem_ofText (by decide) hcr

theorem getLast?_ofText_ne_cr {s : String} (h : s.toList.getLast? ≠ some '\r') :
    (ofText s).getLast? ≠ some cr := by
  intro hcr
  apply h
  exact getLast?_toList_of_getLast?_ofText (by decide) hcr

/-! ## How many octets there are -/

theorem length_flatMap_utf8EncodeChar (cs : List Char) :
    (cs.flatMap String.utf8EncodeChar).length = String.utf8Len cs := by
  induction cs with
  | nil => rfl
  | cons c cs ih =>
    calc ((c :: cs).flatMap String.utf8EncodeChar).length
      _ = (String.utf8EncodeChar c).length + (cs.flatMap String.utf8EncodeChar).length := by
        rw [List.flatMap_cons, List.length_append]
      _ = c.utf8Size + String.utf8Len cs := by rw [ih, String.length_utf8EncodeChar]
      _ = String.utf8Len (c :: cs) := by rw [String.utf8Len_cons, Nat.add_comm]

theorem length_ofText (text : String) : (ofText text).length = text.utf8ByteSize := by
  rw [ofText, length_flatMap_utf8EncodeChar, ← String.utf8ByteSize_ofList, String.ofList_toList]

end Octets

end FaxClient
