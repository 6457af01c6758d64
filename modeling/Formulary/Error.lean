import Formulary.Id
import Formulary.Expr.Kind
import Formulary.Decimal.Style

/-!
# Errors

What can be wrong with a formula, a character or a document, and the words for it. Errors are causes;
`FormulaError.message` alone knows how they are worded.
-/

namespace Formulary

/-- A reason why something could not be built, checked or evaluated. -/
inductive FormulaError where
  /-- A node lacks an operand. -/
  | missingOperand (node : Kind) (operand : OperandName)
  /-- The operand of a division at this position is close to zero. -/
  | divisionByZero (index : Nat)
  /-- No logarithm has this base. -/
  | invalidLogBase (base : Float)
  /-- The ability has no thresholds. -/
  | emptyThresholds (ability : AbilityId)
  /-- No formula has this name. -/
  | missingFormula (name : String)
  /-- Two formulas have this name. -/
  | duplicateFormula (name : String)
  /-- A stat is listed twice. -/
  | duplicateStat (name : String)
  /-- The character has not unlocked the ability. -/
  | unknownAbility (ability : AbilityId)
  /-- The text is no document of the kind that was to be read. -/
  | malformed
deriving DecidableEq

def FormulaError.message : FormulaError → String
  | .missingOperand node operand => node.name ++ " is missing its " ++ operand.text ++ " operand"
  | .divisionByZero index => "Division by zero at operand " ++ toString index
  | .invalidLogBase base => "Invalid logarithm base: " ++ showNumber base
  | .emptyThresholds ability => "Ability " ++ ability.name ++ " has no mastery thresholds"
  | .missingFormula name => "Missing formula: " ++ name
  | .duplicateFormula name => "Duplicate formula: " ++ name
  | .duplicateStat name => "Duplicate stat: " ++ name
  | .unknownAbility ability => "Ability " ++ ability.name ++ " does not exist"
  | .malformed => "Failed to parse formula document"

end Formulary
