import Formulary.Expr.Basic
import Formulary.Error

/-!
# Validation

Every operand that a node cannot do without has to be there. The entries of `max` and `min` may be
absent. What depends on the context, such as a divisor that turns out to be zero, is not looked at.
The first gap in reading order is reported.
-/

namespace Formulary.Expr

mutual

/-- Checks a tree for operands that are missing. -/
def validate : Expr → Except FormulaError Unit
  | .chain op xs => validateAll (.chain op) xs
  | .extremum _ xs => validatePresent xs
  | .power a b => do
    validateOperand .power .base a
    validateOperand .power .exponent b
  | .exponential a => validateOperand .exponential .power a
  | .logarithmic a b => do
    validateOperand .logarithmic .base a
    validateOperand .logarithmic .power b
  | .clamp a b c => do
    validateOperand .clamp .value a
    validateOperand .clamp .min b
    validateOperand .clamp .max c
  | .constant _ | .euler | .coreStat _ | .derivedStat _ | .mastery => .ok ()

/-- Checks an operand that `node` cannot do without. -/
def validateOperand (node : Kind) (operand : OperandName) : Option Expr → Except FormulaError Unit
  | none => .error (.missingOperand node operand)
  | some e => validate e

def validateAll (node : Kind) : List (Option Expr) → Except FormulaError Unit
  | [] => .ok ()
  | x :: xs => do
    validateOperand node .value x
    validateAll node xs

/-- Checks those entries that are there. -/
def validatePresent : List (Option Expr) → Except FormulaError Unit
  | [] => .ok ()
  | none :: xs => validatePresent xs
  | some e :: xs => do
    validate e
    validatePresent xs

end

end Formulary.Expr
