import Formulary.Context.Basic
import Formulary.Expr.Validation

/-!
# Values of expressions

Every expression has a value in every context. A node that cannot compute its value fails with an
error (`Expr.attempt`); seen from above it then counts as zero, and the failure is logged
(`Expr.evaluate`). So a failure never spreads: a node knows its operands only by their values.
-/

namespace Formulary

abbrev Attempt := Traced (Except FormulaError Float)

/-- An operand as its node sees it: absent, or a value with the events of computing it. -/
abbrev Operand := Option (Traced Float)

/-- The operand in a slot that may not be empty. -/
def Operand.require (x : Operand) (node : Kind) (operand : OperandName) :
    Except FormulaError (Traced Float) :=
  match x with
  | some value => .ok value
  | none => .error (.missingOperand node operand)

/-- An attempt that first has to be set up. If the set-up fails, nothing is computed. -/
def Attempt.ofExcept (setUp : Except FormulaError Attempt) : Attempt :=
  match setUp with
  | .ok attempt => attempt
  | .error e => pure (.error e)

def Operator.start : Operator → Float
  | .addition | .subtraction => 0
  | .multiplication | .division => 1

/-- Joins `value` with operands, the first of which stands at `index`. The chain fails at the first
operand that is absent or that `op` refuses; operands beyond it are not computed. -/
def Operator.run (op : Operator) : (value : Float) → (index : Nat) → List Operand → Attempt
  | value, _, [] => pure (.ok value)
  | _, _, none :: _ => pure (.error (.missingOperand (.chain op) .value))
  | value, index, some x :: rest => do
    match op.apply? value (← x) with
    | some value => op.run value (index + 1) rest
    | none => pure (.error (.divisionByZero index))

/-- The values of those operands that are there, the first operand standing at `index`. -/
def Extremum.present (side : Extremum) : (index : Nat) → List Operand → Traced (List Float)
  | _, [] => pure []
  | index, none :: rest => do
    Traced.log (.operandSkipped side index)
    side.present (index + 1) rest
  | index, some x :: rest => do
    let value ← x
    return value :: (← side.present (index + 1) rest)

/-- The largest or smallest of some values, zero if there are none. -/
def Extremum.among (side : Extremum) : List Float → Float
  | [] => 0
  | value :: rest => rest.foldl side.pick value

/-- The largest or smallest of the operands that are there. -/
def Extremum.run (side : Extremum) (operands : List Operand) : Traced Float :=
  side.among <$> side.present 0 operands

namespace Expr

def eulerNumber : Float := 2.718281828459045

/-- The value of a node that counts as zero, and is logged, if its computation failed. -/
def absorb (node : Expr) (attempt : Attempt) : Traced Float :=
  match attempt.value with
  | .ok value => ⟨value, attempt.events⟩
  | .error e => ⟨0, attempt.events ++ [.nodeFailed node e]⟩

section
variable (ctx : Context)

mutual

/-- The value of a node, or its own failure. The failures of the nodes below it count as zero. -/
def attempt : Expr → Attempt
  | .constant x => pure (.ok x)
  | .euler => pure (.ok eulerNumber)
  | .chain op xs => op.run op.start 0 (operands xs)
  | .extremum side xs => .ok <$> side.run (operands xs)
  | .power a b => .ofExcept do
    let base ← (operand a).require .power .base
    let exponent ← (operand b).require .power .exponent
    return do return .ok (Float.pow (← base) (← exponent))
  | .exponential a => .ofExcept do
    let power ← (operand a).require .exponential .power
    return do return .ok (Float.exp (← power))
  | .logarithmic a b => .ofExcept do
    let base ← (operand a).require .logarithmic .base
    let power ← (operand b).require .logarithmic .power
    return do
      let base ← base
      match checkedLog (← power) base with
      | some value => return .ok value
      | none => return .error (.invalidLogBase base)
  | .clamp a b c => .ofExcept do
    let value ← (operand a).require .clamp .value
    let min ← (operand b).require .clamp .min
    let max ← (operand c).require .clamp .max
    return do return .ok (Formulary.clamp (← value) (← min) (← max))
  | .coreStat stat => pure (.ok (wholeValue ((ctx.coreStat? stat).getD 0)))
  | .derivedStat stat => .ok <$> ctx.derivedStat stat
  | .mastery => pure ctx.mastery

def operand : Option Expr → Operand
  | none => none
  | some e => some (absorb e (attempt e))

def operands : List (Option Expr) → List Operand
  | [] => []
  | x :: xs => operand x :: operands xs

end

/-- The value of a node, zero if it has none. -/
def evaluate (e : Expr) : Traced Float :=
  absorb e (e.attempt ctx)

end

theorem operand_eq (ctx : Context) (x : Option Expr) : operand ctx x = x.map (evaluate ctx) := by
  cases x <;> rfl

theorem operands_eq (ctx : Context) (xs : List (Option Expr)) :
    operands ctx xs = xs.map fun x => x.map (evaluate ctx) := by
  induction xs with
  | nil => rfl
  | cons x xs ih => rw [operands, operand_eq, ih, List.map_cons]

end Expr

end Formulary
