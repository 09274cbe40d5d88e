import FaxClient.Octets
import FaxClient.Reply
import FaxClient.Utf8

/-!
# Reading replies

A reply is read off the front of the octets received so far.  Its first line gives the code.  A
hyphen after the code announces more lines; the last of them begins with the same code and a
blank, or is the code alone.  Lines end with a line feed, before which a carriage return is
dropped.

`Reply.read` answers with a reply and the octets after it, with nothing while the reply is not
complete, or with an error.  No octet is consumed but by a reply.  Octets beyond
`Reply.lengthLimit` without a complete reply are an error.
-/

namespace FaxClient.Reply

open Octets

/-- How many octets are held while a reply is not complete. -/
def lengthLimit : Nat := 65536

/-- A line without a carriage return at its end. -/
def chomp (line : Octets) : Octets :=
  if line.getLast? = some cr then line.dropLast else line

def firstLine? (buffer : Octets) : Option (Octets × Octets) :=
  match buffer.dropWhile (· != lf) with
  | [] => none
  | _ :: rest => some (chomp (buffer.takeWhile (· != lf)), rest)

theorem length_lt_of_firstLine? {buffer line rest : Octets}
    (h : firstLine? buffer = some (line, rest)) : rest.length < buffer.length := by
  unfold firstLine? at h
  have hle := (List.dropWhile_sublist (l := buffer) (· != lf)).length_le
  split at h
  · simp at h
  · next heq =>
    rw [heq] at hle
    simp only [Option.some.injEq, Prod.mk.injEq] at h
    obtain ⟨-, rfl⟩ := h
    exact Nat.lt_of_lt_of_le (by simp) hle

def digit? (b : UInt8) : Option Nat :=
  if 48 ≤ b ∧ b ≤ 57 then some (b.toNat - 48) else none

def code? : Octets → Option Nat
  | a :: b :: c :: _ => do
    let x ← digit? a
    let y ← digit? b
    let z ← digit? c
    some (x * 100 + y * 10 + z)
  | _ => none

/-- The text of a line after its code and the octet that follows the code. -/
def lineText (line : Octets) : String := Utf8.text (line.drop 4)

def announcesMore (octets : Octets) : Bool := octets[3]? == some 45

/-- Whether a line is the last of a reply with the code: nothing or a blank follows its code. -/
def closes (code : Nat) (octets : Octets) : Bool :=
  (octets[3]? == none || octets[3]? == some 32) && code? octets == some code

/-- The lines after the first, up to the one that closes the reply: the text so far is
extended, and the octets after the reply are left over. -/
def readLines (code : Nat) (text : String) (buffer : Octets) : Option (String × Octets) :=
  match _h : firstLine? buffer with
  | none => none
  | some (line, rest) =>
    if closes code line then some (text ++ "\n" ++ lineText line, rest)
    else readLines code (text ++ "\n" ++ Utf8.text line) rest
termination_by buffer.length
decreasing_by exact length_lt_of_firstLine? _h

/-- While a reply is not complete: more octets are waited for unless there are too many already. -/
def incomplete (buffer : Octets) (tooLong : String) :
    Except ExchangeError (Option (Reply × Octets)) :=
  if lengthLimit < buffer.length then .error (.malformed tooLong) else .ok none

def read (buffer : Octets) : Except ExchangeError (Option (Reply × Octets)) :=
  match firstLine? buffer with
  | none => incomplete buffer "reply line too long"
  | some (line, rest) =>
    match code? line with
    | none => .error (.malformed (Utf8.text line))
    | some code =>
      if announcesMore line then
        match readLines code (lineText line) rest with
        | none => incomplete buffer "multi-line reply too long"
        | some (text, rest) => .ok (some (⟨code, text⟩, rest))
      else .ok (some (⟨code, lineText line⟩, rest))

theorem readLines_eq (code : Nat) (text : String) (buffer : Octets) :
    readLines code text buffer =
      match firstLine? buffer with
      | none => none
      | some (line, rest) =>
        if closes code line then some (text ++ "\n" ++ lineText line, rest)
        else readLines code (text ++ "\n" ++ Utf8.text line) rest := by
  rw [readLines]
  split <;> simp_all

theorem length_lt_of_readLines {code : Nat} {text : String} {buffer : Octets} {t : String}
    {rest : Octets} (h : readLines code text buffer = some (t, rest)) :
    rest.length < buffer.length := by
  induction text, buffer using readLines.induct code with
  | case1 text buffer hf =>
    rw [readLines_eq] at h
    simp [hf] at h
  | case2 text buffer line left hf hc =>
    rw [readLines_eq] at h
    simp only [hf, hc, if_true, Option.some.injEq, Prod.mk.injEq] at h
    obtain ⟨-, rfl⟩ := h
    exact length_lt_of_firstLine? hf
  | case3 text buffer line left hf hc ih =>
    rw [readLines_eq] at h
    simp only [hf, hc, Bool.false_eq_true, if_false] at h
    exact Nat.lt_trans (ih h) (length_lt_of_firstLine? hf)

theorem length_lt_of_read {buffer rest : Octets} {r : Reply}
    (h : read buffer = .ok (some (r, rest))) : rest.length < buffer.length := by
  unfold read incomplete at h
  split at h
  · split at h <;> simp at h
  · next line left hf =>
    have hlt := length_lt_of_firstLine? hf
    split at h
    · simp at h
    · split at h
      · split at h
        · split at h <;> simp at h
        · next hr =>
          simp only [Except.ok.injEq, Option.some.injEq, Prod.mk.injEq] at h
          obtain ⟨-, rfl⟩ := h
          exact Nat.lt_trans (length_lt_of_readLines hr) hlt
      · simp only [Except.ok.injEq, Option.some.injEq, Prod.mk.injEq] at h
        obtain ⟨-, rfl⟩ := h
        exact hlt

structure Drained where
  replies : List Reply
  error : Option ExchangeError
  rest : Octets

/-- Every complete reply in turn, up to an incomplete one or an error. -/
def drain (buffer : Octets) : Drained :=
  match _h : read buffer with
  | .error e => ⟨[], some e, buffer⟩
  | .ok none => ⟨[], none, buffer⟩
  | .ok (some (r, rest)) =>
    let more := drain rest
    { more with replies := r :: more.replies }
termination_by buffer.length
decreasing_by exact length_lt_of_read _h

/-- Octets that arrive in chunks are added to those left over and drained, up to the first
error. -/
def drainChunks (buffer : Octets) : List Octets → Drained
  | [] => ⟨[], none, buffer⟩
  | chunk :: chunks =>
    let d := drain (buffer ++ chunk)
    match d.error with
    | some _ => d
    | none =>
      let more := drainChunks d.rest chunks
      { more with replies := d.replies ++ more.replies }

end FaxClient.Reply
