import Formulary.Ability
import Formulary.Character
import Formulary.Document.Basic
import Formulary.Document.Record

/-!
# Characters and abilities in documents

Only the ids have to be given: tables are empty by default, an ability has the threshold table `[0]`
and costs nothing. An explicitly empty table of thresholds stays empty.
-/

namespace Formulary

def CharacterData.toJson (d : CharacterData) : Json :=
  .object [("id", .text d.id), ("core_stats", Document.toJson d.coreStats),
    ("derived_adjustments", Document.toJson d.adjustments)]

def CharacterData.read? (j : Json) : Option CharacterData := do
  let r ← Record.ofJson? ["id", "core_stats", "derived_adjustments"] j
  let id ← r.required "id" Json.toText?
  let coreStats ← r.withDefault "core_stats" ∅ Document.ofJson?
  let adjustments ← r.withDefault "derived_adjustments" ∅ Document.ofJson?
  return ⟨id, coreStats, adjustments⟩

instance : Document CharacterData := ⟨CharacterData.toJson, CharacterData.read?⟩

def Character.toJson (c : Character) : Json :=
  .object [("data", c.data.toJson), ("abilities", Document.toJson c.abilities)]

def Character.read? (j : Json) : Option Character := do
  let r ← Record.ofJson? ["data", "abilities"] j
  let data ← r.required "data" CharacterData.read?
  let abilities ← r.withDefault "abilities" ∅ Document.ofJson?
  return ⟨data, abilities⟩

instance : Document Character := ⟨Character.toJson, Character.read?⟩

def Ability.toJson (a : Ability) : Json :=
  .object [("id", Document.toJson a.id), ("mastery_thresholds", Document.toJson a.thresholds),
    ("stat_used", Document.toJson a.statUsed), ("cost", Document.toJson a.cost),
    ("cooldown", .ofFloat a.cooldown)]

def Ability.read? (j : Json) : Option Ability := do
  let r ← Record.ofJson? ["id", "mastery_thresholds", "stat_used", "cost", "cooldown"] j
  let id ← r.required "id" Document.ofJson?
  let thresholds ← r.withDefault "mastery_thresholds" [0] Document.ofJson?
  let statUsed ← r.withDefault "stat_used" none Document.ofJson?
  let cost ← r.withDefault "cost" 0 Document.ofJson?
  let cooldown ← r.withDefault "cooldown" 0 Json.toFloat?
  return ⟨id, thresholds, statUsed, cost, cooldown⟩

instance : Document Ability := ⟨Ability.toJson, Ability.read?⟩

end Formulary
