/-!
# Durations

A length of time in nanoseconds, and its text: the largest of `s`, `ms`, `µs` and `ns` that goes
into it at least once, with as many decimals as are needed and no more.
-/

namespace FaxClient

structure Duration where
  nanoseconds : Nat
  deriving DecidableEq

namespace Duration

def ofSeconds (n : Nat) : Duration := ⟨n * 1000000000⟩

def ofMilliseconds (n : Nat) : Duration := ⟨n * 1000000⟩

/-- The decimals of `part / 10 ^ places`, after a point and without zeros at the end; nothing for
a whole number. -/
def decimals (part places : Nat) : String :=
  if part = 0 then ""
  else
    let digits := (toString part).toList
    let padded := List.replicate (places - digits.length) '0' ++ digits
    "." ++ String.ofList (padded.reverse.dropWhile (· == '0')).reverse

/-- The text in a unit of `10 ^ places` nanoseconds. -/
def inUnit (d : Duration) (places : Nat) (unit : String) : String :=
  let one := Nat.pow 10 places
  toString (d.nanoseconds / one) ++ decimals (d.nanoseconds % one) places ++ unit

def text (d : Duration) : String :=
  if 1000000000 ≤ d.nanoseconds then d.inUnit 9 "s"
  else if 1000000 ≤ d.nanoseconds then d.inUnit 6 "ms"
  else if 1000 ≤ d.nanoseconds then d.inUnit 3 "µs"
  else d.inUnit 0 "ns"

end Duration

end FaxClient
