import Formulary.Numeric

/-!
# Kinds of nodes

The kinds of nodes that expressions are made of, and the names under which documents, errors and
events know them and their operands.
-/

namespace Formulary

/-- Which end of a list of values is taken. -/
inductive Extremum where
  | max
  | min
deriving DecidableEq, Repr

/-- The one of two values that is nearer to the end. -/
def Extremum.pick : Extremum → Float → Float → Float
  | .max => larger
  | .min => smaller

inductive Kind where
  | constant
  | euler
  | chain (op : Operator)
  | power
  | exponential
  | logarithmic
  | clamp
  | extremum (side : Extremum)
  | coreStat
  | derivedStat
  | mastery
deriving DecidableEq, Repr

namespace Kind

/-- Every kind, in the order in which they are numbered. -/
def all : List Kind :=
  [.constant, .euler, .chain .addition, .chain .subtraction, .chain .multiplication,
   .chain .division, .power, .exponential, .logarithmic, .clamp, .extremum .max, .extremum .min,
   .coreStat, .derivedStat, .mastery]

def name : Kind → String
  | .constant => "constant"
  | .euler => "euler_constant"
  | .chain .addition => "addition"
  | .chain .subtraction => "subtraction"
  | .chain .multiplication => "multiply"
  | .chain .division => "divide"
  | .power => "power"
  | .exponential => "exponential"
  | .logarithmic => "logarithmic"
  | .clamp => "clamp"
  | .extremum .max => "max"
  | .extremum .min => "min"
  | .coreStat => "core_stat_lookup"
  | .derivedStat => "derived_stat_lookup"
  | .mastery => "ability_mastery_lookup"

def ofName? (s : String) : Option Kind :=
  all.find? (·.name = s)

end Kind

/-- The name of an operand, as errors give it. -/
inductive OperandName where
  | value
  | base
  | exponent
  | power
  | min
  | max
deriving DecidableEq, Repr

def OperandName.text : OperandName → String
  | .value => "value"
  | .base => "base"
  | .exponent => "exponent"
  | .power => "power"
  | .min => "min"
  | .max => "max"

end Formulary
