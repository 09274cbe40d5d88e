import FaxClient.Proofs.Filter.Direction
import FaxClient.Proofs.Zlib.Tokens

/-!
# Decompressing what was compressed

The stream is the bits of its tokens between a header and the end of the block.  The reader gets
through them with the octets, and what came out passes the check that follows, so the codec loses
nothing.
-/

namespace FaxClient.Zlib

open Deflate (Token numberBits literalWord tokenBits)
open Inflate (State)

/-! ## The checksum -/

/-- The checksum is written with its highest octet first. -/
def checksumOctets (check : Nat) : Octets :=
  [(check / 16777216).toUInt8, (check / 65536).toUInt8, (check / 256).toUInt8, check.toUInt8]

theorem Adler32.value_lt {c : Adler32} (hsum : c.sum.toNat < 65536) (hsums : c.sums.toNat < 65536) :
    c.value < 4294967296 := by
  rw [Adler32.value]
  omega

theorem Adler32.add_lt (c : Adler32) (b : UInt8) :
    (c.add b).sum.toNat < 65536 ∧ (c.add b).sums.toNat < 65536 := by
  have hmod (n : UInt32) : (n % 65521).toNat < 65536 := by
    rw [UInt32.toNat_mod]
    exact (Nat.mod_lt _ (by decide)).trans (by decide)
  exact ⟨hmod _, hmod _⟩

theorem Adler32.value_foldl_lt (x : Array UInt8) :
    (x.foldl Adler32.add Adler32.empty).value < 4294967296 := by
  obtain ⟨hsum, hsums⟩ : (x.foldl Adler32.add Adler32.empty).sum.toNat < 65536 ∧
      (x.foldl Adler32.add Adler32.empty).sums.toNat < 65536 := by
    refine Array.foldl_induction
      (fun _ (c : Adler32) => c.sum.toNat < 65536 ∧ c.sums.toNat < 65536) (by decide) ?_
    intro i c hc
    exact c.add_lt _
  exact Adler32.value_lt hsum hsums

theorem digits_of_lt {a b c d : Nat} (ha : a < 256) (hb : b < 256) (hc : c < 256) :
    let u := a + 256 * (b + 256 * (c + 256 * d))
    u % 256 = a ∧ u / 256 % 256 = b ∧ u / 65536 % 256 = c ∧ u / 16777216 = d := by
  intro u
  refine ⟨?_, ?_, ?_, ?_⟩ <;> omega

theorem sum_of_digits {check : Nat} (h : check < 4294967296) :
    check / 16777216 % 256 * 16777216 + check / 65536 % 256 * 65536 + check / 256 % 256 * 256 +
      check % 256 = check := by
  omega

theorem octets_checksum {s : State} {check : Nat} (hcheck : s.check.value = check)
    (hlt : check < 4294967296) :
    (s.read .checksum).octets (checksumOctets check) = .ok (s.goto .ended) := by
  have hbits : (checksumOctets check).flatMap octetBits ≠ [] := by
    simp [checksumOctets, octetBits, numberBits]
  have hwidth : 0 + ((checksumOctets check).flatMap octetBits).length =
      Inflate.Field.checksum.width := by
    rw [length_flatMap_octetBits]
    rfl
  have hvalue : s.number .checksum
      (0 + 2 ^ 0 * ofBits ((checksumOctets check).flatMap octetBits)) = s.goto .ended := by
    have hnumber : 0 + 2 ^ 0 * ofBits ((checksumOctets check).flatMap octetBits) =
        check / 16777216 % 256 + 256 * (check / 65536 % 256 + 256 * (check / 256 % 256 +
          256 * (check % 256))) := by
      simp [checksumOctets, ofBits_append, ofBits_octetBits]
    obtain ⟨hfirst, hsecond, hthird, hfourth⟩ := digits_of_lt (d := check % 256)
      (Nat.mod_lt (check / 16777216) (by decide)) (Nat.mod_lt (check / 65536) (by decide))
      (Nat.mod_lt (check / 256) (by decide))
    rw [hnumber]
    simp only [State.number, hcheck, hfirst, hsecond, hthird, hfourth]
    rw [if_pos (sum_of_digits hlt)]
  have hreads := s.reads_number .checksum 0 0 _ hbits hwidth
  rw [hvalue] at hreads
  exact State.octets_of_reads hreads hbits (List.append_nil _).symm (by simp) rfl
    (by simp [State.goto])

/-! ## Whole streams -/

/-- The reader when the first block has begun, which is the last. -/
def begun : State := { Inflate.start with last := true }

theorem reads_opening :
    Inflate.start.Reads (octetBits 0x78 ++ octetBits 0x9C ++ [true, true, false])
      (begun.literal Inflate.fixedCodes) := by
  have hheader := Inflate.start.reads_number .header 0 0 (octetBits 0x78 ++ octetBits 0x9C)
    (by decide) rfl
  have hblock := Inflate.start.reads_number .block 0 0 [true, true, false] (by decide) rfl
  have hheader' : Inflate.start.number .header
      (0 + 2 ^ 0 * ofBits (octetBits 0x78 ++ octetBits 0x9C)) = Inflate.start.read .block := by
    have hvalue : 0 + 2 ^ 0 * ofBits (octetBits 0x78 ++ octetBits 0x9C) = 40056 := by decide
    rw [hvalue]
    rfl
  have hblock' : Inflate.start.number .block (0 + 2 ^ 0 * ofBits [true, true, false]) =
      begun.literal Inflate.fixedCodes := by
    have hvalue : 0 + 2 ^ 0 * ofBits [true, true, false] = 3 := by decide
    rw [hvalue]
    rfl
  rw [hheader'] at hheader
  rw [hblock'] at hblock
  exact hheader.append hblock

theorem Writer.Holds.foldl_write {w : Deflate.Writer} {bits : List Bool}
    (h : Writer.Holds w bits) (ts : List Token) :
    Writer.Holds (ts.foldl (fun w t => w.write (tokenBits t)) w)
      (bits ++ ts.flatMap tokenBits) := by
  induction ts generalizing w bits with
  | nil => simpa using h
  | cons t ts ih =>
    rw [List.foldl_cons, List.flatMap_cons, ← List.append_assoc]
    exact ih (h.write _)

/-- The stream is the bits of the header, of one block and of the end of it, filled up to an octet,
and the checksum. -/
theorem toList_stream (x : Array UInt8) : ∃ body pad : _,
    (Deflate.stream x).toList =
        body ++ checksumOctets (x.foldl Adler32.add Adler32.empty).value ∧
      body.flatMap octetBits = (octetBits 0x78 ++ octetBits 0x9C ++ [true, true, false]) ++
        (Deflate.tokens x).toList.flatMap tokenBits ++ literalWord endOfBlock ++ pad ∧
      pad.length < 8 := by
  let opened := (Deflate.Writer.mk Deflate.header 0 0).write [true, true, false]
  let written := (Deflate.tokens x).toList.foldl (fun w t => w.write (tokenBits t)) opened
  have hheader : Writer.Holds ⟨Deflate.header, 0, 0⟩ (octetBits 0x78 ++ octetBits 0x9C) :=
    ⟨by decide, by decide, rfl⟩
  obtain ⟨pad, hbits, hpad⟩ :=
    (((hheader.write [true, true, false]).foldl_write (Deflate.tokens x).toList).write
      (literalWord endOfBlock)).octets
  refine ⟨(written.write (literalWord endOfBlock)).octets.toList, pad, ?_, hbits, hpad⟩
  simp [Deflate.stream, checksumOctets, written, opened]

theorem reads_block (x : Array UInt8) : ∃ s : State,
    Inflate.start.Reads ((octetBits 0x78 ++ octetBits 0x9C ++ [true, true, false]) ++
        (Deflate.tokens x).toList.flatMap tokenBits ++ literalWord endOfBlock)
      (s.goto (.aligning .checksum)) ∧ s.out = x ∧ s.Checked := by
  have hsound : ∀ t ∈ (Deflate.tokens x).toList, t.Sound := by
    intro t ht
    exact Deflate.sound_tokens x t (Array.mem_toList_iff.mp ht)
  have hspelled := Deflate.spelled_tokens x
  rw [← Array.foldl_toList] at hspelled
  have hlast := State.last_foldl_put begun (Deflate.tokens x).toList
  have hbegun : begun.Checked := rfl
  refine ⟨(Deflate.tokens x).toList.foldl State.put begun, ?_, ?_, hbegun.foldl_put _⟩
  · exact (reads_opening.append (begun.reads_tokens hsound)).append (State.reads_endOfBlock hlast)
  · rw [State.out_foldl_put]
    exact hspelled

theorem octets_stream (x : Array UInt8) :
    ∃ t, Inflate.start.octets (Deflate.stream x).toList = .ok t ∧ t.out = x := by
  obtain ⟨body, pad, hstream, hbits, hpad⟩ := toList_stream x
  obtain ⟨s, hreads, hout, hchecked⟩ := reads_block x
  have hne : (octetBits 0x78 ++ octetBits 0x9C ++ [true, true, false]) ++
      (Deflate.tokens x).toList.flatMap tokenBits ++ literalWord endOfBlock ≠ [] := by
    intro hnil
    simp only [List.append_eq_nil_iff] at hnil
    exact absurd hnil.1.1.2 (by simp)
  -- The bits that fill up the last octet are skipped, and the checksum begins after it.
  have hsettled : (s.goto (.aligning .checksum)).settled = s.read .checksum := rfl
  have hbody := State.octets_of_reads hreads hne hbits hpad (State.foldl_bit_of_aligning rfl pad)
    (by simp [State.goto])
  rw [hsettled] at hbody
  have hcheck : s.check.value = (x.foldl Adler32.add Adler32.empty).value := by
    rw [hchecked, hout]
  refine ⟨s.goto .ended, ?_, hout⟩
  rw [hstream, State.octets_append]
  exact Filter.bind_eq_ok_iff.mpr ⟨_, hbody, octets_checksum hcheck (Adler32.value_foldl_lt x)⟩

theorem outputsFrom_deflate (s : Array UInt8) (chunks : List Octets) :
    ∃ outs, deflate.outputsFrom s chunks = .ok outs ∧
      outs.flatten = (Deflate.stream (s ++ chunks.flatten)).toList := by
  induction chunks generalizing s with
  | nil =>
    refine ⟨[(Deflate.stream s).toList], ?_, by simp⟩
    exact Filter.outputsFrom_nil_eq_ok_iff.mpr ⟨_, _, rfl, rfl⟩
  | cons chunk chunks ih =>
    obtain ⟨outs, houts, hflat⟩ := ih (s ++ chunk)
    have happend : s ++ chunk ++ chunks.flatten = s ++ (chunk :: chunks).flatten := by
      apply Array.toList_inj.mp
      simp
    refine ⟨[] :: outs, ?_, by rw [List.flatten_cons, List.nil_append, hflat, happend]⟩
    exact Filter.outputsFrom_cons_eq_ok_iff.mpr ⟨[], s ++ chunk, outs, rfl, houts, rfl⟩

/-- Compression loses nothing, however the octets or the stream are divided. -/
theorem lossless : zlib.Lossless := by
  intro chunks stream hstream pieces hpieces
  obtain ⟨outs, houts, rfl⟩ := (Filter.run_eq_ok_iff _ _ _).mp hstream
  obtain ⟨outs', houts', hflat⟩ := outputsFrom_deflate #[] chunks
  cases houts.symm.trans houts'
  obtain ⟨t, ht, hout⟩ := octets_stream ((#[] : Array UInt8) ++ chunks.flatten)
  refine run_inflate_eq_ok_iff.mpr ⟨t, ?_, by simp [hout]⟩
  rw [hpieces, hflat]
  exact ht

end FaxClient.Zlib
