import Formulary.DerivedStat.Basic
import Formulary.Expr.Kind

/-!
# Expressions

An expression is a tree. Its inner nodes compute a value from the values of their operands; its leaves
are constants or look something up in a context. An operand may be absent, so an operand slot is an
`Option Expr`; what an absent operand means is for each use of a tree to say.
-/

namespace Formulary

/-- A node of a formula, with the nodes below it. -/
inductive Expr where
  /-- A literal value. -/
  | constant (value : Float)
  /-- Euler's number. -/
  | euler
  /-- The values joined by an operator, from zero for sums and from one for products: `0 + a + b`,
  `0 - a - b`, `1 * a * b` and `1 / a / b`. -/
  | chain (op : Operator) (values : List (Option Expr))
  /-- The largest or smallest of the values that are present. -/
  | extremum (side : Extremum) (entries : List (Option Expr))
  /-- `base` raised to `exponent`. -/
  | power (base exponent : Option Expr)
  /-- Euler's number raised to `power`. -/
  | exponential (power : Option Expr)
  /-- The logarithm of `power` to `base`. -/
  | logarithmic (base power : Option Expr)
  /-- `value` held between `min` and `max`. -/
  | clamp (value min max : Option Expr)
  /-- A core stat of the character. -/
  | coreStat (stat : StatId)
  /-- A derived stat of the character. -/
  | derivedStat (stat : DerivedStat)
  /-- The threshold of the ability at the character's mastery of it. -/
  | mastery
deriving Inhabited

namespace Expr

def kind : Expr → Kind
  | .constant _ => .constant
  | .euler => .euler
  | .chain op _ => .chain op
  | .extremum side _ => .extremum side
  | .power .. => .power
  | .exponential _ => .exponential
  | .logarithmic .. => .logarithmic
  | .clamp .. => .clamp
  | .coreStat _ => .coreStat
  | .derivedStat _ => .derivedStat
  | .mastery => .mastery

mutual

/-- Whether two trees have the same shape and equal numbers. A NaN equals nothing, itself included,
and the two zeros are equal. -/
def same : Expr → Expr → Bool
  | .constant x, .constant y => x == y
  | .euler, .euler => true
  | .chain op xs, .chain op' ys => op = op' && sameSlots xs ys
  | .extremum side xs, .extremum side' ys => side = side' && sameSlots xs ys
  | .power a b, .power a' b' => sameSlot a a' && sameSlot b b'
  | .exponential a, .exponential a' => sameSlot a a'
  | .logarithmic a b, .logarithmic a' b' => sameSlot a a' && sameSlot b b'
  | .clamp a b c, .clamp a' b' c' => sameSlot a a' && sameSlot b b' && sameSlot c c'
  | .coreStat stat, .coreStat stat' => stat = stat'
  | .derivedStat stat, .derivedStat stat' => stat = stat'
  | .mastery, .mastery => true
  | _, _ => false

def sameSlot : Option Expr → Option Expr → Bool
  | none, none => true
  | some e, some e' => same e e'
  | _, _ => false

def sameSlots : List (Option Expr) → List (Option Expr) → Bool
  | [], [] => true
  | x :: xs, y :: ys => sameSlot x y && sameSlots xs ys
  | _, _ => false

end

instance : BEq Expr := ⟨same⟩

end Expr

end Formulary
