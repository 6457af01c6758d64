import Formulary.Name

/-!
# Identifiers

An identifier is a text together with what it identifies, so that the id of a core stat never stands
where the id of an ability is meant. Nothing here knows a concrete name: the stats and abilities of
a game are data.
-/

namespace Formulary

inductive IdKind where
  | stat
  | derivedStat
  | ability
deriving DecidableEq, Repr

/-- The identifier of something of kind `k`. -/
structure Id (k : IdKind) where
  name : String
deriving DecidableEq, Repr

/-- A core stat (strength, dexterity, …). -/
abbrev StatId := Id .stat

/-- A derived stat (maximal health, chance of a critical hit, …). -/
abbrev DerivedStatId := Id .derivedStat

abbrev AbilityId := Id .ability

instance {k : IdKind} : Named (Id k) where
  text := Id.name
  text_inj := fun {a b} h => by cases a; cases b; exact congrArg Id.mk h

/-- The length of an identifier in bytes. -/
def Id.size {k : IdKind} (i : Id k) : Nat :=
  i.name.utf8ByteSize

end Formulary
