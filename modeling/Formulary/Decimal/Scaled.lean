import Formulary.Decimal.Nearest

/-!
# Decimals as documents read them

A number of a document is not read as the double nearest to it. Its digits are taken into a
significand of 64 bits as long as they fit (`Decimal.ofDigits`); the significand is rounded to a
double, and that double is multiplied or divided by a power of ten, which is rounded too
(`Decimal.scaled`).
-/

namespace Formulary.Decimal

/-- Significands are below this number, `2 ^ 64`. -/
def significandEnd : Nat := 0x10000000000000000

/-- A significand continued by the leading digits for which it has room, and the digits from the first
one on for which it has none. -/
def takeDigits : Nat → List Char → Nat × List Char
  | n, [] => (n, [])
  | n, c :: rest =>
    let next := n * 10 + (c.toNat - '0'.toNat)
    if next < significandEnd then takeDigits next rest else (n, c :: rest)

/-- The decimal spelled by the digits before and after the point and by an exponent, cut off where its
significand is full. A digit before the point that has been cut off still counts for the exponent. -/
def ofDigits (integer fraction : List Char) (exponent : Int) : Decimal :=
  let (n, dropped) := takeDigits 0 integer
  let (n, ignored) := takeDigits n fraction
  ⟨n, exponent + dropped.length - (fraction.length - ignored.length)⟩

/-- The largest power of ten that is a finite double. -/
def largestPower : Nat := 308

def powerOfTen (n : Nat) : Float :=
  nearest ⟨1, n⟩

/-- The double that a decimal is read as, infinity for one that is too large. Where the power of ten to
divide by is no finite double, the quotient is taken in two steps. -/
def scaled (d : Decimal) : Float :=
  let x := nearest ⟨d.coefficient, 0⟩
  if d.coefficient = 0 then x
  else if 0 ≤ d.exponent then x * powerOfTen d.exponent.toNat
  else
    let places := (-d.exponent).toNat
    if places ≤ largestPower then x / powerOfTen places
    else x / powerOfTen largestPower / powerOfTen (places - largestPower)

end Formulary.Decimal
