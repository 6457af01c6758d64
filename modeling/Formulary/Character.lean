import Formulary.Sheet
import Formulary.Table

/-!
# Characters

Character data is what an author writes down: the core stats of a character and adjustments to its
derived stats. A character adds what it has learnt: the abilities it has unlocked and its mastery of
each of them.
-/

namespace Formulary

/-- The authored part of a character. -/
structure CharacterData where
  id : String
  coreStats : Table StatId Int32 := ∅
  adjustments : Table DerivedStatId Int32 := ∅
deriving DecidableEq

namespace CharacterData

def coreStat? (d : CharacterData) (stat : StatId) : Option Int32 :=
  d.coreStats.get? stat

/-- Character data as look-ups see them. -/
def toCoreStats (d : CharacterData) : CoreStats :=
  ⟨d.coreStat?⟩

/-- What is added to a derived stat. -/
def adjustment (d : CharacterData) (stat : DerivedStatId) : Int32 :=
  (d.adjustments.get? stat).getD 0

def withCoreStat (d : CharacterData) (stat : StatId) (value : Int32) : CharacterData :=
  { d with coreStats := d.coreStats.insert stat value }

def withAdjustment (d : CharacterData) (stat : DerivedStatId) (value : Int32) : CharacterData :=
  { d with adjustments := d.adjustments.insert stat value }

/-- The data that two lists of entries describe, of entries for one stat the last counting. -/
def ofLists (id : String) (coreStats : List (StatId × Int32))
    (adjustments : List (DerivedStatId × Int32)) : CharacterData :=
  adjustments.foldl (fun d x => d.withAdjustment x.1 x.2)
    (coreStats.foldl (fun d x => d.withCoreStat x.1 x.2) ⟨id, ∅, ∅⟩)

/-- Adds entries to a table, none of which may name what the table already holds. -/
def addEntries {k : IdKind} : Table (Id k) Int32 → List (Id k × Int32) →
    Except FormulaError (Table (Id k) Int32)
  | t, [] => .ok t
  | t, (stat, value) :: rest =>
    if t.contains stat then .error (.duplicateStat stat.name)
    else addEntries (t.insert stat value) rest

/-- The data that two lists of entries describe, neither of which may name a stat twice. -/
def ofEntries (id : String) (coreStats : List (StatId × Int32))
    (adjustments : List (DerivedStatId × Int32)) : Except FormulaError CharacterData := do
  let coreStats ← addEntries ∅ coreStats
  let adjustments ← addEntries ∅ adjustments
  return ⟨id, coreStats, adjustments⟩

end CharacterData

structure Character where
  data : CharacterData
  /-- The mastery level of each ability that has been unlocked. -/
  abilities : Table AbilityId UInt32 := ∅
deriving DecidableEq

namespace Character

def coreStat? (c : Character) (stat : StatId) : Option Int32 :=
  c.data.coreStat? stat

/-- The value of a derived stat, its adjustment included. -/
def derivedStat (c : Character) (stat : DerivedStat) : Traced Float :=
  (· + wholeValue (c.data.adjustment stat.id)) <$> stat.evaluate c.data.coreStat?

/-- The mastery level of an ability that has been unlocked. -/
def mastery? (c : Character) (ability : AbilityId) : Option UInt32 :=
  c.abilities.get? ability

def sheet (c : Character) : Sheet where
  coreStat? := c.coreStat?
  derivedStat := c.derivedStat
  mastery? := c.mastery?
  events_derivedStat stat := by
    rw [derivedStat, Traced.events_map]
    exact stat.events_evaluate c.data.coreStat?

@[simp] theorem coreStat?_sheet (c : Character) (stat : StatId) :
    c.sheet.coreStat? stat = c.data.coreStats.get? stat := rfl

@[simp] theorem derivedStat_sheet (c : Character) (stat : DerivedStat) : c.sheet.derivedStat stat = c.derivedStat stat :=
  rfl

@[simp] theorem mastery?_sheet (c : Character) (ability : AbilityId) : c.sheet.mastery? ability = c.mastery? ability :=
  rfl

/-- Unlocks an ability at level zero, and says whether it was locked before. An ability that is
unlocked already keeps its level. -/
def addAbility (c : Character) (ability : AbilityId) : Bool × Character :=
  if c.abilities.contains ability then (false, c)
  else (true, { c with abilities := c.abilities.insert ability 0 })

/-- The level after a level, unless it is the last one. -/
def nextLevel (level : UInt32) : UInt32 :=
  if level = 0xFFFFFFFF then level else level + 1

/-- Raises the mastery of an unlocked ability by one level, and gives the new level. -/
def levelUp (c : Character) (ability : AbilityId) : Traced (Except FormulaError UInt32 × Character) :=
  match c.mastery? ability with
  | some level =>
    let level := nextLevel level
    pure (.ok level, { c with abilities := c.abilities.insert ability level })
  | none => do
    Traced.log (.abilityMissing c.data.id ability)
    pure (.error (.unknownAbility ability), c)

end Character

end Formulary
