import Formulary.DerivedStat.Value

/-!
# Character sheets

Look-ups ask a character for its stats and its mastery of abilities, and are content with whatever answers: the
characters of this library (`Character.sheet`) or those that a game keeps in records of its own.
-/

namespace Formulary

/-- Something that knows its core stats. -/
structure CoreStats where
  coreStat? : StatId → Option Int32

/-- Something that knows its derived stats and its mastery of abilities as well. -/
structure Sheet extends CoreStats where
  /-- The value of a derived stat, with all that adjusts it. -/
  derivedStat : DerivedStat → Traced Float
  /-- The mastery level of an ability that has been unlocked. -/
  mastery? : AbilityId → Option UInt32
  /-- All that a derived stat may log is that it was to be divided by zero. -/
  events_derivedStat : ∀ stat, (derivedStat stat).events = [] ∨
    ∃ derived core, (derivedStat stat).events = [.statDividedByZero derived core]

end Formulary
