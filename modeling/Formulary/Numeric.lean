/-!
# Arithmetic that has to be decided

The few places where arithmetic on doubles needs a decision: which values are close enough to count
as equal, what the larger and the smaller of two values is when one of them is NaN, what a clamp does
with its bounds the wrong way round, and which logarithms exist.
-/

namespace Formulary

/-- The larger of two values. A NaN is ignored unless both are NaN, and of equal values, such as the
two zeros, the first one is taken. -/
def larger (a b : Float) : Float :=
  if a.isNaN then b else if a < b then b else a

/-- The smaller of two values. A NaN is ignored unless both are NaN, and of equal values, such as the
two zeros, the first one is taken. -/
def smaller (a b : Float) : Float :=
  if a.isNaN then b else if b < a then b else a

/-- A whole number as the double that it is: doubles hold every 32-bit number exactly. -/
def wholeValue (n : Int32) : Float :=
  .ofInt n.toInt

/-! ## Closeness -/

/-- A number system in which values are judged close to one another. -/
class Closeness (α : Type) extends Sub α, Mul α where
  abs : α → α
  larger : α → α → α
  less : α → α → Bool
  /-- The distance that is still close, as a part of the larger of two magnitudes. -/
  relative : α
  /-- The distance that is still close, whatever the magnitudes. -/
  absolute : α

/-- Whether two values count as equal: they are less than a millionth of the larger magnitude apart,
or less than `2 ^ -49`. -/
def approximately {α : Type} [Closeness α] (a b : α) : Bool :=
  Closeness.less (Closeness.abs (b - a))
    (Closeness.larger (Closeness.relative * Closeness.larger (Closeness.abs a) (Closeness.abs b))
      Closeness.absolute)

instance : Closeness Float where
  abs := Float.abs
  larger := larger
  less := fun a b => a < b
  relative := 1e-6
  absolute := 1 / 562949953421312

/-! ## Clamps and logarithms -/

/-- `value` held between `min` and `max`. With the bounds the wrong way round the lower one wins. -/
def clamp (value min max : Float) : Float :=
  if min > max ∨ value < min then min
  else if value > max then max
  else value

/-- Smaller arguments of a logarithm are raised to this one. -/
def minLogArgument : Float := 1e-4

/-- The logarithm of `argument` to `base`. A base that is not positive, or close to one, has none. -/
def checkedLog (argument base : Float) : Option Float :=
  if base.isNaN ∨ base ≤ 0 ∨ approximately base 1 then none
  else some ((larger argument minLogArgument).log / base.log)

/-! ## Operators -/

inductive Operator where
  | addition
  | subtraction
  | multiplication
  | division
deriving DecidableEq, Repr

/-- The result of an operation, or none for a division by a value close to zero. -/
def Operator.apply? (op : Operator) (a b : Float) : Option Float :=
  match op with
  | .addition => some (a + b)
  | .subtraction => some (a - b)
  | .multiplication => some (a * b)
  | .division => if approximately b 0 then none else some (a / b)

end Formulary
