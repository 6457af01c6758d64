/-!
# Decimals and the doubles nearest to them

A finite double without its sign is called by its *rank*, the number that its exponent and fraction
bits spell: ranks count the non-negative doubles upwards from zero, and rank `r` stands for
`unitsOfRank r` units of `2 ^ -1074`. The double nearest to a decimal is found by its rank, a half going
to the even rank (`Decimal.rank`).
-/

namespace Formulary

/-- The number `coefficient * 10 ^ exponent`. -/
structure Decimal where
  coefficient : Nat
  exponent : Int
deriving DecidableEq, Repr

/-- The whole number nearest to `num / den`, a half going to the even one. -/
def roundHalfEven (num den : Nat) : Nat :=
  let quotient := num / den
  match compare (2 * (num % den)) den with
  | .lt => quotient
  | .eq => quotient + quotient % 2
  | .gt => quotient + 1

/-! ## Ranks -/

/-- The number of units, each of `2 ^ -1074`, in one. -/
def unitsOfOne : Nat := Nat.pow 2 1074

/-- The number of doubles from one power of two up to the next, `2 ^ 52`. -/
def binade : Nat := 0x10000000000000

/-- The rank of infinity. Finite doubles have smaller ranks. -/
def rankOfInfinity : Nat := 2047 * binade

/-- The number of units that a rank stands for. In the first two binades every double is one unit from
the next; from there on the distance doubles with every binade. -/
def unitsOfRank (rank : Nat) : Nat :=
  let scale := rank / binade - 1
  (rank - scale * binade) * Nat.pow 2 scale

/-- The rank of the double nearest to `num / den` units. It may be that of infinity or more. -/
def rankOfUnits (num den : Nat) : Nat :=
  let scale := (num / den).log2 - 52
  scale * binade + roundHalfEven num (den * Nat.pow 2 scale)

def signBit : Nat := 0x8000000000000000

/-- The rank of a double, its sign dropped. -/
def rankOf (x : Float) : Nat :=
  x.toBits.toNat % signBit

/-- Whether the sign bit of a double is set, also for `-0.0`. -/
def signOf (x : Float) : Bool :=
  signBit ≤ x.toBits.toNat

def ofRank (negative : Bool) (rank : Nat) : Float :=
  Float.ofBits (.ofNat (rank + if negative then signBit else 0))

/-! ## The nearest double -/

namespace Decimal

/-- The rank of the double nearest to a decimal, and some rank from that of infinity on for a decimal
beyond all doubles. No decimal of `10 ^ 400` or more has a finite rank, and none below `10 ^ -399` a
rank but zero, so no power of ten outside these bounds is computed. -/
def rank (d : Decimal) : Nat :=
  if d.coefficient = 0 then 0
  else if 400 < d.exponent then rankOfInfinity
  else if d.exponent + 400 + d.coefficient.log2 < 0 then 0
  else rankOfUnits (d.coefficient * Nat.pow 10 d.exponent.toNat * unitsOfOne)
    (Nat.pow 10 (-d.exponent).toNat)

/-- The double nearest to a decimal, infinity for a decimal beyond all doubles. -/
def nearest (d : Decimal) : Float :=
  ofRank false (min d.rank rankOfInfinity)

end Decimal

end Formulary
