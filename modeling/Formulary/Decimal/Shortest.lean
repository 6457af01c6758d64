import Formulary.Decimal.Nearest

/-!
# The shortest decimal of a double

A double is written with the fewest digits that single it out, which means that no other double is
nearer to the decimal, and of two such decimals with the one nearer to the exact value. On each grid
only the two neighbours of the exact value can single the double out, if any can.
-/

namespace Formulary

/-- Which of two equally near decimals is written. -/
inductive Tie where
  /-- the larger one -/
  | up
  /-- the one whose last digit is even -/
  | even
deriving DecidableEq, Repr

namespace Decimal

/-- How many decimal digits a number has. -/
def length (n : Nat) : Nat :=
  (Nat.toDigits 10 n).length

def exact (rank : Nat) : Decimal :=
  let units := unitsOfRank rank
  let common := units.gcd unitsOfOne
  let halvings : Nat := (unitsOfOne / common).log2
  ⟨units / common * Nat.pow 5 halvings, -(halvings : Int)⟩

/-- The neighbours of a decimal on the grid that lacks its last `dropped` digits, the preferred one
first; the decimal alone if it is on the grid itself. -/
def neighbours (tie : Tie) (d : Decimal) (dropped : Nat) : List Decimal :=
  let step := Nat.pow 10 dropped
  let below : Decimal := ⟨d.coefficient / step, d.exponent + dropped⟩
  let above : Decimal := ⟨d.coefficient / step + 1, d.exponent + dropped⟩
  if d.coefficient % step = 0 then [below]
  else match compare (2 * (d.coefficient % step)) step, tie with
    | .lt, _ => [below, above]
    | .gt, _ => [above, below]
    | .eq, .up => [above, below]
    | .eq, .even => if below.coefficient % 2 = 0 then [below, above] else [above, below]

/-- A decimal with the zeros at the end of its coefficient moved into its exponent, at most `fuel`
of them. -/
def strip : Nat → Decimal → Decimal
  | 0, d => d
  | fuel + 1, d =>
    if d.coefficient % 10 = 0 then strip fuel ⟨d.coefficient / 10, d.exponent + 1⟩ else d

/-- The decimal that a rank is written as. -/
def shortest (tie : Tie) (rank : Nat) : Decimal :=
  if rank = 0 then ⟨0, 0⟩
  else
    let d := exact rank
    let width := length d.coefficient
    let found := (List.range' 1 17).findSome? fun digits =>
      (d.neighbours tie (width - digits)).find? fun candidate => candidate.rank = rank
    let chosen := found.getD d
    chosen.strip (length chosen.coefficient)

end Decimal

end Formulary
