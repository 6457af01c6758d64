import Formulary.Id

/-!
# Abilities

An ability carries a table of thresholds, one for each mastery level from zero on. Levels beyond the
table stay at its last entry.
-/

namespace Formulary

structure Ability where
  id : AbilityId
  /-- The thresholds by mastery level. -/
  thresholds : List Int32 := [0]
  /-- The derived stat that pays for the use of the ability. -/
  statUsed : Option DerivedStatId := none
  cost : Int32 := 0
  /-- The turns until the ability can be used again. -/
  cooldown : Float := 0

/-- The threshold at a mastery level. Only an ability without thresholds has none. -/
def Ability.threshold? (a : Ability) (level : UInt32) : Option Int32 :=
  a.thresholds[min level.toNat (a.thresholds.length - 1)]?

end Formulary
