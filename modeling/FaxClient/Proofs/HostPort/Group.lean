import FaxClient.HostPort
import Mathlib

/-!
# Groups that write an endpoint

A group is six numerals with commas between them.  Zeros may lead a numeral, but it must not be
empty and its number must fit an octet.  What a group is read as is the endpoint that it writes, and
every endpoint is written by its encoding.
-/

namespace FaxClient.HostPort

/-! ## What a group is -/

/-- A number in decimal, with any number of zeros before it. -/
structure Numeral (digits : List Char) (n : Nat) : Prop where
  ne_nil : digits ≠ []
  isDigit_of_mem : ∀ c ∈ digits, c.isDigit = true
  value_eq : Nat.ofDigitChars 10 digits 0 = n

/-- Six numerals up to 255 with commas between them: the octets of the address, and the port in base
256. -/
def Writes (group : List Char) (e : Endpoint) : Prop :=
  ∃ numerals : List (List Char), ∃ a b c d high low : Nat,
    group = [','].intercalate numerals ∧
      List.Forall₂ Numeral numerals [a, b, c, d, high, low] ∧
      (∀ n ∈ [a, b, c, d, high, low], n ≤ 255) ∧
      e.ip.a.toNat = a ∧ e.ip.b.toNat = b ∧ e.ip.c.toNat = c ∧ e.ip.d.toNat = d ∧
      e.port.toNat = 256 * high + low

/-! ## Reading a numeral -/

theorem Numeral.comma_notMem {digits : List Char} {n : Nat} (h : Numeral digits n) :
    ',' ∉ digits := by
  intro hcomma
  exact absurd (h.isDigit_of_mem ',' hcomma) (by decide)

theorem value_eq_ofDigitChars (digits : List Char) :
    value digits = Nat.ofDigitChars 10 digits 0 := by
  simp only [value, Nat.ofDigitChars_eq_foldl, Nat.mul_comm]

theorem octet?_eq_some_iff {field : List Char} {v : UInt8} :
    octet? field = some v ↔ Numeral field v.toNat := by
  have hdigits : field.all isDigit = true ↔ ∀ c ∈ field, c.isDigit = true := List.all_eq_true
  unfold octet?
  constructor
  · intro h
    split at h
    · next hfield =>
      obtain ⟨hne, hall, hlt⟩ := hfield
      cases h
      refine ⟨hne, hdigits.mp hall, ?_⟩
      rw [← value_eq_ofDigitChars, Nat.toUInt8_eq, UInt8.toNat_ofNat', Nat.mod_eq_of_lt hlt]
    · cases h
  · rintro ⟨hne, hall, hvalue⟩
    rw [← value_eq_ofDigitChars] at hvalue
    have hlt : value field < 256 := hvalue ▸ v.toNat_lt
    rw [if_pos ⟨hne, hdigits.mpr hall, hlt⟩, hvalue]
    simp

/-! ## Reading a group -/

theorem fields_eq_splitOn (chars : List Char) : fields chars = chars.splitOn ',' := by
  induction chars with
  | nil => rfl
  | cons c rest ih =>
    rw [fields, ih, List.splitOn_cons_eq_if_modifyHead]
    have hne := List.splitOn_ne_nil ',' rest
    generalize rest.splitOn ',' = pieces at hne
    cases pieces with
    | nil => exact absurd rfl hne
    | cons piece pieces => simp

/-- Numerals hold no comma, so a group is divided at the commas between them. -/
theorem fields_intercalate {numerals : List (List Char)} {numbers : List Nat}
    (h : List.Forall₂ Numeral numerals numbers) (hne : numerals ≠ []) :
    fields ([','].intercalate numerals) = numerals := by
  have hcomma : List.Forall₂ (fun digits n => ',' ∉ digits ∧ Numeral digits n) numerals numbers :=
    h.imp fun _ _ hnumeral => ⟨hnumeral.comma_notMem, hnumeral⟩
  rw [fields_eq_splitOn]
  exact List.splitOn_intercalate ',' ((List.forall₂_and_left _ _).mp hcomma).1 hne

theorem mapM_octet?_eq_some_iff {numerals : List (List Char)} {octets : List UInt8} :
    numerals.mapM octet? = some octets ↔
      List.Forall₂ Numeral numerals (octets.map UInt8.toNat) := by
  induction numerals generalizing octets with
  | nil => simp [eq_comm]
  | cons field numerals ih =>
    simp only [List.mapM_cons, Option.bind_eq_bind, Option.bind_eq_some_iff, Option.pure_def,
      Option.some.injEq, octet?_eq_some_iff, ih]
    constructor
    · rintro ⟨v, hv, octets, hoctets, rfl⟩
      exact .cons hv hoctets
    · intro h
      cases octets with
      | nil => cases h
      | cons v octets =>
        obtain ⟨hv, hoctets⟩ := List.forall₂_cons.mp h
        exact ⟨v, hv, octets, hoctets, rfl⟩

theorem toNat_port (p q : UInt8) : (p.toUInt16 * 256 + q.toUInt16).toNat = 256 * p.toNat + q.toNat := by
  have hp := p.toNat_lt
  have hq := q.toNat_lt
  rw [UInt16.toNat_add, UInt16.toNat_mul, UInt8.toNat_toUInt16, UInt8.toNat_toUInt16]
  rw [show (256 : UInt16).toNat = 256 from rfl]
  omega

/-- What is read as a group has six numerals between its commas. -/
theorem writes_of_group? {group : List Char} {e : Endpoint} (h : group? group = some e) :
    Writes group e := by
  unfold group? at h
  split at h
  · next a b c d p q hoctets =>
    cases h
    have hnumerals := mapM_octet?_eq_some_iff.mp hoctets
    refine ⟨fields group, a.toNat, b.toNat, c.toNat, d.toNat, p.toNat, q.toNat, ?_, hnumerals, ?_,
      rfl, rfl, rfl, rfl, toNat_port p q⟩
    · rw [fields_eq_splitOn, List.intercalate_splitOn]
    · have hle (v : UInt8) : v.toNat ≤ 255 := Nat.le_of_lt_succ v.toNat_lt
      simp [hle]
  · cases h

theorem Writes.group?_eq {group : List Char} {e : Endpoint} (h : Writes group e) :
    group? group = some e := by
  obtain ⟨numerals, _, _, _, _, high, low, rfl, hnumerals, hle, rfl, rfl, rfl, rfl, hport⟩ := h
  have hhigh : (UInt8.ofNat high).toNat = high :=
    UInt8.toNat_ofNat_of_lt' (Nat.lt_succ_of_le (hle high (by simp)))
  have hlow : (UInt8.ofNat low).toNat = low :=
    UInt8.toNat_ofNat_of_lt' (Nat.lt_succ_of_le (hle low (by simp)))
  have hne : numerals ≠ [] := by
    rintro rfl
    cases hnumerals
  have hoctets : numerals.mapM octet? =
      some [e.ip.a, e.ip.b, e.ip.c, e.ip.d, UInt8.ofNat high, UInt8.ofNat low] := by
    rw [mapM_octet?_eq_some_iff]
    simpa only [List.map_cons, List.map_nil, hhigh, hlow] using hnumerals
  have hread : (UInt8.ofNat high).toUInt16 * 256 + (UInt8.ofNat low).toUInt16 = e.port := by
    rw [← UInt16.toNat_inj, toNat_port, hhigh, hlow, hport]
  rw [group?, fields_intercalate hnumerals hne, hoctets]
  simp only [hread]

/-- A group is read as the endpoint that it writes. -/
theorem group?_eq_some_iff {group : List Char} {e : Endpoint} :
    group? group = some e ↔ Writes group e :=
  ⟨writes_of_group?, Writes.group?_eq⟩

theorem group?_eq_none_iff {group : List Char} : group? group = none ↔ ∀ e, ¬Writes group e := by
  rw [Option.eq_none_iff_forall_ne_some]
  exact forall_congr' fun e => not_congr group?_eq_some_iff

/-! ## Writing a group -/

theorem numeral_toDigits (n : Nat) : Numeral (Nat.toDigits 10 n) n where
  ne_nil := Nat.toDigits_ne_nil
  isDigit_of_mem _ hc := Nat.isDigit_of_mem_toDigits (by decide) (by decide) hc
  value_eq := Nat.ofDigitChars_ten_toDigits

theorem writes_encode (e : Endpoint) : Writes (encode e).toList e := by
  refine ⟨_, e.ip.a.toNat, e.ip.b.toNat, e.ip.c.toNat, e.ip.d.toNat, e.port.toNat / 256,
    e.port.toNat % 256, String.toList_intercalate, ?_, ?_, rfl, rfl, rfl, rfl, ?_⟩
  · simp [numeral_toDigits]
  · have hle (v : UInt8) : v.toNat ≤ 255 := Nat.le_of_lt_succ v.toNat_lt
    have hport := e.port.toNat_lt
    simp [hle]
    omega
  · omega

/-! ## What a group holds -/

theorem inGroup_of_mem_intercalate {numerals : List (List Char)} {numbers : List Nat}
    (h : List.Forall₂ Numeral numerals numbers) :
    ∀ c ∈ [','].intercalate numerals, inGroup c = true := by
  have hdigit {digits : List Char} {n : Nat} (h : Numeral digits n) : ∀ c ∈ digits, inGroup c := by
    intro c hc
    exact Bool.or_eq_true_iff.mpr (.inl (h.isDigit_of_mem c hc))
  induction h with
  | nil => simp
  | @cons digits n numerals numbers hnumeral hrest ih =>
    cases hrest with
    | nil => simpa using hdigit hnumeral
    | cons hnext hrest =>
      intro c hc
      rw [List.intercalate_cons_cons, List.mem_append, List.mem_append, List.mem_singleton] at hc
      rcases hc with (hc | rfl) | hc
      · exact hdigit hnumeral c hc
      · decide
      · exact ih c hc

theorem Writes.inGroup_of_mem {group : List Char} {e : Endpoint} (h : Writes group e) :
    ∀ c ∈ group, inGroup c = true := by
  obtain ⟨numerals, _, _, _, _, _, _, rfl, hnumerals, -⟩ := h
  exact inGroup_of_mem_intercalate hnumerals

/-- A group begins with a digit, since its first numeral is not empty. -/
theorem Writes.exists_cons {group : List Char} {e : Endpoint} (h : Writes group e) :
    ∃ c rest, group = c :: rest ∧ isDigit c = true := by
  obtain ⟨numerals, _, _, _, _, _, _, rfl, hnumerals, -⟩ := h
  obtain ⟨digits, numerals, hdigits, hrest, rfl⟩ := List.forall₂_cons_right_iff.mp hnumerals
  obtain ⟨c, digits, rfl⟩ := List.exists_cons_of_ne_nil hdigits.ne_nil
  have hne : numerals ≠ [] := by
    rintro rfl
    cases hrest
  refine ⟨c, digits ++ [','] ++ [','].intercalate numerals, ?_, ?_⟩
  · simp [List.intercalate_cons_of_ne_nil hne]
  · exact hdigits.isDigit_of_mem c List.mem_cons_self

end FaxClient.HostPort
