import Formulary.Expr.Text
import Formulary.Error

/-!
# Events

What happened while something was computed: a node that counted as zero, an operand that was skipped,
an argument that was ignored. Events are data; their level, message and fields are read off them.
-/

namespace Formulary

inductive Level where
  | error
  | warn
  | debug
  | trace
deriving DecidableEq, Repr

/-- What an argument of a context is. -/
inductive Role where
  | character
  | characterData
  | ability
deriving DecidableEq, Repr

def Role.name : Role → String
  | .character => "character"
  | .characterData => "character_data"
  | .ability => "ability"

inductive Event where
  /-- A node could not compute its value and counted as zero. -/
  | nodeFailed (node : Expr) (error : FormulaError)
  /-- An absent entry of a maximum or minimum was left out. -/
  | operandSkipped (side : Extremum) (index : Nat)
  /-- A context already had an argument of this role. -/
  | argumentIgnored (role : Role)
  /-- A derived stat was to be divided by a term close to zero, and counted as zero. -/
  | statDividedByZero (derived : DerivedStatId) (stat : StatId)
  /-- A formula was evaluated. -/
  | formulaEvaluated (formula : String) (value : Float)
  /-- A formula that is not in the library counted as zero. -/
  | formulaMissing (formula : String)
  /-- A character was to level up an ability that it has not unlocked. -/
  | abilityMissing (character : String) (ability : AbilityId)

inductive Field where
  | text (value : String)
  | index (value : Nat)
  | number (value : Float)

namespace Event

def level : Event → Level
  | .nodeFailed _ (.divisionByZero _) => .error
  | .nodeFailed _ (.invalidLogBase _) => .debug
  | .nodeFailed .. => .warn
  | .operandSkipped .. => .warn
  | .argumentIgnored _ => .debug
  | .statDividedByZero .. => .error
  | .formulaEvaluated .. => .trace
  | .formulaMissing _ => .warn
  | .abilityMissing .. => .error

def message : Event → String
  | .nodeFailed .. => "expression evaluated to 0"
  | .operandSkipped .. => "skipping absent operand"
  | .argumentIgnored _ => "ignoring duplicate context argument"
  | .statDividedByZero .. => "division by zero while computing derived stat"
  | .formulaEvaluated .. => "formula evaluated"
  | .formulaMissing _ => "formula evaluated to 0"
  | .abilityMissing .. => "ability does not exist"

def fields : Event → List (String × Field)
  | .nodeFailed node error =>
    [("node", .text node.kind.name), ("expression", .text node.display),
     ("error", .text error.message)]
  | .operandSkipped side index =>
    [("node", .text (Kind.extremum side).name), ("index", .index index)]
  | .argumentIgnored role => [("kind", .text role.name)]
  | .statDividedByZero derived stat =>
    [("derived_stat", .text derived.name), ("stat", .text stat.name)]
  | .formulaEvaluated formula value => [("formula", .text formula), ("value", .number value)]
  | .formulaMissing formula =>
    [("formula", .text formula), ("error", .text (FormulaError.missingFormula formula).message)]
  | .abilityMissing character ability =>
    [("character", .text character), ("ability", .text ability.name)]

end Event

end Formulary
