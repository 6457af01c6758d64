import Formulary.Document.DerivedStat
import Formulary.Proofs.Document.Basic
import Formulary.Proofs.Json.RoundTrip

/-!
# Derived stats read back

Everything in the definition of a derived stat is written out, so the definition is read back wherever
it stands: `DerivedStat.read?_toJson`.
-/

namespace Formulary

theorem Operator.read?_name (place : Place) (op : Operator) :
    Operator.read? place (Document.toJson op) = some op := by
  cases op <;> rfl

theorem Modifier.read?_toJson (place : Place) (m : Modifier) : Modifier.read? place m.toJson = some m := by
  have hr : Record.ofJson? ["stat", "weight", "op"] m.toJson =
      some ⟨false, [("stat", Document.toJson m.stat), ("weight", Document.toJson m.weight),
        ("op", Document.toJson m.op)]⟩ :=
    Record.ofMembers?_of_nodup rfl (by decide)
  rw [Modifier.read?, hr]
  simp [Record.required, Record.get?, ofJson?_toJson_id, ofJson?_toJson_int32, Operator.read?_name]

/-- **A derived stat is read back**, inside a node and outside of one. -/
theorem DerivedStat.read?_toJson (place : Place) (d : DerivedStat) :
    DerivedStat.read? place d.toJson = some d := by
  have hr : Record.ofJson? ["id", "modifiers"] d.toJson =
      some ⟨false, [("id", Document.toJson d.id), ("modifiers", Document.toJson d.modifiers)]⟩ :=
    Record.ofMembers?_of_nodup rfl (by decide)
  have hmodifiers : Json.toList? (Modifier.read? place) (Document.toJson d.modifiers) = some d.modifiers :=
    mapM_map_of_read (Modifier.read?_toJson place) d.modifiers
  rw [DerivedStat.read?, hr]
  simp [Record.required, Record.withDefault, Record.get?, ofJson?_toJson_id, hmodifiers]

/-! ## What is written for a derived stat -/

theorem Modifier.readable_toJson (m : Modifier) : m.toJson.readable = true := by
  simp [Modifier.toJson, Json.readable, Json.readableMembers, Document.toJson]

theorem Modifier.restorable_toJson (m : Modifier) : m.toJson.Restorable := by
  simp [Modifier.toJson, Json.Restorable, Json.RestorableMembers, Document.toJson, Json.fits_int32]

theorem DerivedStat.readable_toJson (d : DerivedStat) : d.toJson.readable = true := by
  simp [DerivedStat.toJson, Json.readable, Json.readableMembers, Document.toJson,
    Json.readableItems_eq_all, Modifier.readable_toJson]

theorem DerivedStat.restorable_toJson (d : DerivedStat) : d.toJson.Restorable := by
  simp [DerivedStat.toJson, Json.Restorable, Json.RestorableMembers, Document.toJson,
    Json.restorableItems_iff, Modifier.restorable_toJson]

end Formulary
