import FaxClient.Proofs.Reply.Stability
import FaxClient.Proofs.Text.Encoding

/-!
# The grammar of replies

Replies that are written by the grammar are read as what was written, one after the other, and what
follows them is left alone.  A reply has lines before its last one or not; the last one has a blank
after the code, or the code alone.  Lines in between may be anything that is not such a last line,
and each line may end with CR LF or with LF.
-/

namespace FaxClient.Reply

open Octets

/-! ## Replies as they are written -/

/-- How a line ends on the connection. -/
inductive LineEnd where
  | crlf
  | bare
  deriving DecidableEq

def LineEnd.octets : LineEnd → Octets
  | .crlf => [cr, lf]
  | .bare => [lf]

/-- A text with a line end.  A CR before a bare LF would be taken for a part of the line end. -/
structure Line where
  text : String
  ending : LineEnd
  lf_notMem : '\n' ∉ text.toList
  not_endsCr : ending = .bare → text.toList.getLast? ≠ some '\r'

def Line.octets (l : Line) : Octets := ofText l.text ++ l.ending.octets

/-- The last line of a reply, after its code: a blank and a text, or nothing. -/
inductive LastLine where
  | text (line : Line)
  | code (ending : LineEnd)

namespace LastLine

def octets : LastLine → Octets
  | .text line => 32 :: line.octets
  | .code ending => ending.octets

def said : LastLine → String
  | .text line => line.text
  | .code _ => ""

end LastLine

/-- A code has three digits. -/
def codeText (code : Nat) : String :=
  String.ofList [Nat.digitChar (code / 100), Nat.digitChar (code / 10 % 10),
    Nat.digitChar (code % 10)]

/-- A text that makes the last line of a reply with the code: the code, or the code and a blank and
anything. -/
def EndsReply (code : Nat) (text : String) : Prop :=
  text = codeText code ∨ (codeText code ++ " ").toList <+: text.toList

instance (code : Nat) (text : String) : Decidable (EndsReply code text) :=
  inferInstanceAs (Decidable (_ ∨ _))

/-- A reply with the lines before its last one.  The first of these, if there are any, follows the
code and a hyphen; none of the others is a last line for the code. -/
structure Written where
  code : Nat
  lines : List Line
  last : LastLine
  code_lt : code < 1000
  not_endsReply : ∀ l ∈ lines.tail, ¬EndsReply code l.text

namespace Written

def octets (w : Written) : Octets :=
  match w.lines with
  | [] => ofText (codeText w.code) ++ w.last.octets
  | first :: inner =>
    ofText (codeText w.code ++ "-") ++ first.octets ++ inner.flatMap Line.octets ++
      (ofText (codeText w.code) ++ w.last.octets)

/-- What a written reply says: the texts of its lines, joined by LF. -/
def reply (w : Written) : Reply :=
  ⟨w.code, "\n".intercalate (w.lines.map Line.text ++ [w.last.said])⟩

end Written

/-! ## Codes -/

theorem digit_of_lt (d : Nat) (h : d < 10) :
    ∃ b, String.utf8EncodeChar (Nat.digitChar d) = [b] ∧ digit? b = some d := by
  interval_cases d <;> exact ⟨_, rfl, rfl⟩

theorem ofText_codeText {code : Nat} (h : code < 1000) :
    ∃ a b c, ofText (codeText code) = [a, b, c] ∧ ∀ rest, code? (a :: b :: c :: rest) = some code := by
  obtain ⟨a, ha, hda⟩ := digit_of_lt (code / 100) (by omega)
  obtain ⟨b, hb, hdb⟩ := digit_of_lt (code / 10 % 10) (by omega)
  obtain ⟨c, hc, hdc⟩ := digit_of_lt (code % 10) (by omega)
  refine ⟨a, b, c, by simp [ofText, codeText, ha, hb, hc], ?_⟩
  intro rest
  have hsum : code / 100 * 100 + code / 10 % 10 * 10 + code % 10 = code := by omega
  simp [code?, hda, hdb, hdc, hsum]

theorem digit?_eq_some {b : UInt8} {d : Nat} (h : digit? b = some d) :
    b < 128 ∧ d < 10 ∧ Char.ofNat b.toNat = Nat.digitChar d := by
  unfold digit? at h
  split at h
  · next hrange =>
    obtain ⟨hlow, hhigh⟩ := hrange
    rw [UInt8.le_iff_toNat_le] at hlow hhigh
    rw [show (48 : UInt8).toNat = 48 from rfl] at hlow
    rw [show (57 : UInt8).toNat = 57 from rfl] at hhigh
    cases h
    refine ⟨?_, by omega, ?_⟩
    · rw [UInt8.lt_iff_toNat_lt, show (128 : UInt8).toNat = 128 from rfl]
      omega
    · generalize b.toNat = n at hlow hhigh
      interval_cases n <;> rfl
  · cases h

/-- A line with a code begins with the digits of the code. -/
theorem decodeLossy_of_code? {line : Octets} {code : Nat} (h : code? line = some code) :
    ∃ a b c rest, line = a :: b :: c :: rest ∧
      Utf8.decodeLossy line = (codeText code).toList ++ Utf8.decodeLossy rest := by
  match line, h with
  | a :: b :: c :: rest, h =>
    simp only [code?, Option.bind_eq_bind, Option.bind_eq_some_iff] at h
    obtain ⟨x, hx, y, hy, z, hz, h⟩ := h
    obtain ⟨ha, hx, hax⟩ := digit?_eq_some hx
    obtain ⟨hb, hy, hby⟩ := digit?_eq_some hy
    obtain ⟨hc, hz, hcz⟩ := digit?_eq_some hz
    cases h
    refine ⟨a, b, c, rest, rfl, ?_⟩
    have hx' : (x * 100 + y * 10 + z) / 100 = x := by omega
    have hy' : (x * 100 + y * 10 + z) / 10 % 10 = y := by omega
    have hz' : (x * 100 + y * 10 + z) % 10 = z := by omega
    simp [Utf8.decodeLossy_cons_of_lt, ha, hb, hc, codeText, hx', hy', hz', hax, hby, hcz]

/-- The octets that close a reply are those of a text that ends it. -/
theorem endsReply_of_closes {code : Nat} {text : String} (h : closes code (ofText text) = true) :
    EndsReply code text := by
  simp only [closes, Bool.and_eq_true, Bool.or_eq_true, beq_iff_eq] at h
  obtain ⟨hafter, hcode⟩ := h
  obtain ⟨a, b, c, rest, hline, hread⟩ := decodeLossy_of_code? hcode
  rw [Utf8.decodeLossy_ofText] at hread
  rw [hline] at hafter
  rcases hafter with hend | hblank
  · have hnil : rest = [] := by simpa using hend
    refine .inl (String.toList_inj.mp ?_)
    simpa [hnil] using hread
  · obtain ⟨rest, rfl⟩ : ∃ more, rest = 32 :: more := by
      cases rest with
      | nil => simp at hblank
      | cons d rest => exact ⟨rest, by simpa using hblank⟩
    refine .inr ⟨Utf8.decodeLossy rest, ?_⟩
    rw [hread, Utf8.decodeLossy_cons_of_lt (by decide)]
    simp

/-! ## Lines -/

/-- What stands before a line end is the line, if there is no LF in it and, where the line end is a
bare LF, no CR at its end. -/
theorem firstLine?_ended {raw : Octets} {ending : LineEnd} (hraw : lf ∉ raw)
    (hcr : ending = .bare → raw.getLast? ≠ some cr) (rest : Octets) :
    firstLine? (raw ++ ending.octets ++ rest) = some (raw, rest) := by
  cases ending with
  | crlf =>
    have hlf : lf ∉ raw ++ [cr] := by
      simpa [hraw] using show lf ≠ cr by decide
    have hchomp : chomp (raw ++ [cr]) = raw := by simp [chomp]
    have heq : raw ++ LineEnd.crlf.octets ++ rest = (raw ++ [cr]) ++ lf :: rest := by
      simp [LineEnd.octets]
    rw [heq, firstLine?_append_lf hlf, hchomp]
  | bare =>
    have hchomp : chomp raw = raw := by simp [chomp, hcr rfl]
    have heq : raw ++ LineEnd.bare.octets ++ rest = raw ++ lf :: rest := by
      simp [LineEnd.octets]
    rw [heq, firstLine?_append_lf hraw, hchomp]

/-- A line may follow a text that has no line end in it. -/
theorem firstLine?_line (before : String) (hlf : '\n' ∉ before.toList)
    (hcr : '\r' ∉ before.toList) (l : Line) (rest : Octets) :
    firstLine? (ofText before ++ l.octets ++ rest) = some (ofText (before ++ l.text), rest) := by
  have hraw : '\n' ∉ (before ++ l.text).toList := by simp [hlf, l.lf_notMem]
  have hlast (h : l.ending = .bare) : (before ++ l.text).toList.getLast? ≠ some '\r' := by
    rw [String.toList_append, List.getLast?_append]
    intro hend
    rcases Option.or_eq_some_iff.mp hend with hend | ⟨-, hend⟩
    · exact l.not_endsCr h hend
    · exact hcr (List.mem_of_getLast? hend)
  have heq : ofText before ++ l.octets ++ rest =
      ofText (before ++ l.text) ++ l.ending.octets ++ rest := by
    simp [Line.octets]
  rw [heq]
  apply firstLine?_ended (lf_notMem_ofText hraw)
  intro h
  exact getLast?_ofText_ne_cr (hlast h)

theorem notMem_codeText {code : Nat} (h : code < 1000) {c : Char} (hc : c.isDigit = false) :
    c ∉ (codeText code).toList := by
  have hne {d : Nat} (hd : d < 10) : c ≠ Nat.digitChar d := by
    rintro rfl
    simp [Nat.isDigit_digitChar, hd] at hc
  simp [codeText, hne (show code / 100 < 10 by omega), hne (Nat.mod_lt (code / 10) (by decide)),
    hne (Nat.mod_lt code (by decide))]

/-- The last line of a reply has its code, announces no more lines and closes the reply. -/
theorem firstLine?_lastLine {code : Nat} (h : code < 1000) (last : LastLine) (rest : Octets) :
    ∃ line, firstLine? (ofText (codeText code) ++ last.octets ++ rest) = some (line, rest) ∧
      code? line = some code ∧ announcesMore line = false ∧ closes code line = true ∧
      lineText line = last.said := by
  have hlf : '\n' ∉ (codeText code).toList := notMem_codeText h rfl
  have hcr : '\r' ∉ (codeText code).toList := notMem_codeText h rfl
  have hblank : ofText " " = [32] := rfl
  obtain ⟨a, b, c, hoctets, hcode⟩ := ofText_codeText h
  cases last with
  | text l =>
    refine ⟨ofText (codeText code ++ " " ++ l.text), ?_, ?_⟩
    · have hline := firstLine?_line (codeText code ++ " ") (by simp [hlf]) (by simp [hcr]) l rest
      simpa [LastLine.octets, hblank] using hline
    · have hwhole : ofText (codeText code ++ " " ++ l.text) = a :: b :: c :: 32 :: ofText l.text := by
        simp [hoctets, hblank]
      rw [hwhole]
      simp [hcode, announcesMore, closes, lineText, LastLine.said]
  | code ending =>
    refine ⟨ofText (codeText code), ?_, ?_⟩
    · apply firstLine?_ended (lf_notMem_ofText hlf)
      intro _ hend
      exact cr_notMem_ofText hcr (List.mem_of_getLast? hend)
    · rw [hoctets]
      simp [hcode, announcesMore, closes, lineText, LastLine.said]

/-- The first of several lines has the code and announces more. -/
theorem firstLine?_opening {code : Nat} (h : code < 1000) (l : Line) (rest : Octets) :
    ∃ line, firstLine? (ofText (codeText code ++ "-") ++ l.octets ++ rest) = some (line, rest) ∧
      code? line = some code ∧ announcesMore line = true ∧ lineText line = l.text := by
  have hlf : '\n' ∉ (codeText code ++ "-").toList := by simp [notMem_codeText h]
  have hcr : '\r' ∉ (codeText code ++ "-").toList := by simp [notMem_codeText h]
  have hhyphen : ofText "-" = [45] := rfl
  obtain ⟨a, b, c, hoctets, hcode⟩ := ofText_codeText h
  have hwhole : ofText (codeText code ++ "-" ++ l.text) = a :: b :: c :: 45 :: ofText l.text := by
    simp [hoctets, hhyphen]
  refine ⟨ofText (codeText code ++ "-" ++ l.text), firstLine?_line _ hlf hcr l rest, ?_⟩
  rw [hwhole]
  simp [hcode, announcesMore, lineText]

/-! ## Whole replies -/

theorem readLines_of_closes {code : Nat} {buffer line rest : Octets} (text : String)
    (hfirst : firstLine? buffer = some (line, rest)) (hcloses : closes code line = true) :
    readLines code text buffer = some (text ++ "\n" ++ lineText line, rest) := by
  rw [readLines_eq]
  simp [hfirst, hcloses]

theorem readLines_of_goesOn {code : Nat} {buffer line rest : Octets} (text : String)
    (hfirst : firstLine? buffer = some (line, rest)) (hcloses : closes code line = false) :
    readLines code text buffer = readLines code (text ++ "\n" ++ Utf8.text line) rest := by
  rw [readLines_eq]
  simp [hfirst, hcloses]

theorem readLines_inner {code : Nat} (h : code < 1000) (text : String) (inner : List Line)
    (hinner : ∀ l ∈ inner, ¬EndsReply code l.text) (last : LastLine) (rest : Octets) :
    readLines code text
        (inner.flatMap Line.octets ++ (ofText (codeText code) ++ last.octets ++ rest)) =
      some ("\n".intercalate (text :: (inner.map Line.text ++ [last.said])), rest) := by
  induction inner generalizing text with
  | nil =>
    obtain ⟨line, hline, -, -, hcloses, hsaid⟩ := firstLine?_lastLine h last rest
    rw [List.flatMap_nil, List.nil_append, readLines_of_closes text hline hcloses, hsaid]
    simp [String.intercalate_cons_cons]
  | cons l inner ih =>
    have hfirst := firstLine?_line "" (by simp) (by simp) l
      (inner.flatMap Line.octets ++ (ofText (codeText code) ++ last.octets ++ rest))
    rw [String.empty_append] at hfirst
    have hgoesOn : closes code (ofText l.text) = false := by
      rw [Bool.eq_false_iff]
      intro hcloses
      apply hinner l List.mem_cons_self
      exact endsReply_of_closes hcloses
    have hrest : ∀ m ∈ inner, ¬EndsReply code m.text := by
      intro m hm
      exact hinner m (List.mem_cons_of_mem l hm)
    rw [List.flatMap_cons, List.append_assoc]
    apply (readLines_of_goesOn text hfirst hgoesOn).trans
    rw [Utf8.text_ofText, ih _ hrest]
    simp [String.intercalate_cons_cons, String.intercalate_cons_append]

theorem read_octets (w : Written) (rest : Octets) :
    read (w.octets ++ rest) = .ok (some (w.reply, rest)) := by
  obtain ⟨code, lines, last, hcode, hinner⟩ := w
  cases lines with
  | nil =>
    obtain ⟨line, hline, hread, hmore, -, hsaid⟩ := firstLine?_lastLine hcode last rest
    refine read_eq_some_iff.mpr ⟨line, rest, hline, hread, ?_⟩
    simp [hmore, hsaid, Written.reply]
  | cons first inner =>
    obtain ⟨line, hline, hread, hmore, hsaid⟩ := firstLine?_opening hcode first
      (inner.flatMap Line.octets ++ (ofText (codeText code) ++ last.octets ++ rest))
    have hbuffer : (Written.mk code (first :: inner) last hcode hinner).octets ++ rest =
        ofText (codeText code ++ "-") ++ first.octets ++
          (inner.flatMap Line.octets ++ (ofText (codeText code) ++ last.octets ++ rest)) := by
      simp [Written.octets]
    rw [hbuffer]
    refine read_eq_some_iff.mpr ⟨line, _, hline, hread, ?_⟩
    have hlines := readLines_inner hcode first.text inner hinner last rest
    rw [if_pos hmore, hsaid]
    exact hlines

/-! ## One reply after the other -/

/-- What a call of the reader answers, and the octets that it leaves. -/
def call (buffer : Octets) : Except ExchangeError (Option Reply) × Octets :=
  match read buffer with
  | .error e => (.error e, buffer)
  | .ok none => (.ok none, buffer)
  | .ok (some (r, rest)) => (.ok (some r), rest)

/-- What a number of calls answer in turn, and the octets that the last one leaves. -/
def calls : Nat → Octets → List (Except ExchangeError (Option Reply)) × Octets
  | 0, buffer => ([], buffer)
  | n + 1, buffer => ((call buffer).1 :: (calls n (call buffer).2).1, (calls n (call buffer).2).2)

theorem call_octets (w : Written) (rest : Octets) :
    call (w.octets ++ rest) = (.ok (some w.reply), rest) := by
  simp [call, read_octets]

/-- As many calls as replies were written answer with these replies in turn, and what follows them
is left. -/
theorem calls_flatMap_octets (replies : List Written) (rest : Octets) :
    calls replies.length (replies.flatMap Written.octets ++ rest) =
      (replies.map fun w => .ok (some w.reply), rest) := by
  induction replies with
  | nil => rfl
  | cons w replies ih =>
    let others := replies.flatMap Written.octets ++ rest
    calc calls (replies.length + 1) ((w :: replies).flatMap Written.octets ++ rest)
      _ = calls (replies.length + 1) (w.octets ++ others) := by
        rw [List.flatMap_cons, List.append_assoc]
      _ = (.ok (some w.reply) :: (calls replies.length others).1,
          (calls replies.length others).2) := by rw [calls, call_octets]
      _ = ((w :: replies).map fun w => .ok (some w.reply), rest) := by rw [ih, List.map_cons]

/-- A reply whose inner lines are nearly its last one. -/
def status : Written where
  code := 11
  lines :=
    [⟨"status", .crlf, by decide, by decide⟩, ⟨"011-jobs", .bare, by decide, by decide⟩,
      ⟨"0110 done", .crlf, by decide, by decide⟩, ⟨"011\r", .crlf, by decide, by decide⟩,
      ⟨"", .bare, by decide, by decide⟩]
  last := .code .bare
  code_lt := by decide
  not_endsReply := by decide

example :
    status.octets = ofText "011-status\r\n011-jobs\n0110 done\r\n011\r\r\n\n011\n" ∧
      status.reply = ⟨11, "status\n011-jobs\n0110 done\n011\r\n\n"⟩ := by
  decide

end FaxClient.Reply
