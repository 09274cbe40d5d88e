/-!
# The range of numbers

A number with a fraction, an exponent or too many digits is taken as a double: its digits as far
as they go into 64 bits, times a power of ten.  It is refused if the product of the two, each
rounded to a double, is beyond the largest double.
-/

namespace FaxClient.Json

/-- The nearest number of at most 53 significant bits; of two equally near ones the even one. -/
def roundToDouble (n : Nat) : Nat :=
  let excess := n.log2 + 1 - 53
  if excess = 0 then n
  else
    let unit := 1 <<< excess
    let q := n / unit
    let r := n % unit
    if unit < 2 * r ∨ (2 * r = unit ∧ q % 2 = 1) then (q + 1) * unit else q * unit

/-- The least number that is rounded beyond the largest double. -/
def doubleLimit : Nat := (1 <<< 1024) - (1 <<< 970)

def outOfRange (digits : Nat) (power : Int) : Bool :=
  if power < 0 || digits == 0 then false
  else if 308 < power then true
  else doubleLimit ≤ roundToDouble digits * roundToDouble (Nat.pow 10 power.toNat)

def wordLimit : Nat := 18446744073709551615

end FaxClient.Json
