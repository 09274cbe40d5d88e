import FaxClient.Octets

/-!
# Reading UTF-8 that may be damaged

Octets are read one at a time.  Between characters the reader is at `start`; inside one it knows
how many octets are still owed, the range in which the next must lie, and the bits gathered so
far.  An octet that cannot continue a character ends it with one replacement character and is
looked at again as the first octet of the next, so each longest beginning of a character that
leads nowhere is replaced once.
-/

namespace FaxClient.Utf8

def replacement : Char := '\uFFFD'

inductive State where
  | start
  | within (owed : Nat) (low high : UInt8) (bits : Nat)

/-- What the first octet of a character brings. -/
def State.lead (b : UInt8) : List Char × State :=
  if b < 0x80 then ([Char.ofNat b.toNat], .start)
  else if 0xC2 ≤ b ∧ b ≤ 0xDF then ([], .within 1 0x80 0xBF (b.toNat - 0xC0))
  else if b = 0xE0 then ([], .within 2 0xA0 0xBF 0)
  else if b = 0xED then ([], .within 2 0x80 0x9F 0xD)
  else if 0xE1 ≤ b ∧ b ≤ 0xEF then ([], .within 2 0x80 0xBF (b.toNat - 0xE0))
  else if b = 0xF0 then ([], .within 3 0x90 0xBF 0)
  else if 0xF1 ≤ b ∧ b ≤ 0xF3 then ([], .within 3 0x80 0xBF (b.toNat - 0xF0))
  else if b = 0xF4 then ([], .within 3 0x80 0x8F 4)
  else ([replacement], .start)

/-- The characters that one octet completes, and where it leaves the reader. -/
def State.step : State → UInt8 → List Char × State
  | .start, b => State.lead b
  | .within owed low high bits, b =>
    if low ≤ b ∧ b ≤ high then
      let bits := bits * 64 + (b.toNat - 0x80)
      if owed ≤ 1 then ([Char.ofNat bits], .start)
      else ([], .within (owed - 1) 0x80 0xBF bits)
    else
      let (cs, next) := State.lead b
      (replacement :: cs, next)

/-- What is left at the end of the octets: an unfinished character is damaged. -/
def State.finish : State → List Char
  | .start => []
  | .within .. => [replacement]

def State.run : State → Octets → List Char
  | s, [] => s.finish
  | s, b :: rest =>
    let (cs, next) := s.step b
    cs ++ next.run rest

def decodeLossy (octets : Octets) : List Char :=
  State.start.run octets

def text (octets : Octets) : String :=
  String.ofList (decodeLossy octets)

@[simp] theorem decodeLossy_nil : decodeLossy [] = [] := rfl

@[simp] theorem text_nil : text [] = "" := rfl

end FaxClient.Utf8
