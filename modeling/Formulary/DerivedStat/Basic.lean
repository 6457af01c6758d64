import Formulary.Id
import Formulary.Numeric

/-!
# Definitions of derived stats

A derived stat is computed from core stats by a list of modifiers, applied in order to a value that
starts at zero.
-/

namespace Formulary

/-- One term of a derived stat: a core stat times a weight, and how it enters the value. -/
structure Modifier where
  stat : StatId
  weight : Int32
  op : Operator
deriving DecidableEq, Repr

/-- The definition of a derived stat. -/
structure DerivedStat where
  id : DerivedStatId
  modifiers : List Modifier := []
deriving DecidableEq, Repr

end Formulary
