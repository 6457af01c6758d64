import Formulary.Library
import Formulary.Proofs.Document.Expr

/-!
# Libraries in documents

The document of a library puts four levels of brackets around its expressions: the document, the list of
formulas, a formula and its list of expressions. So a reader that builds `depth + 4` levels reads a library
back if all of its expressions are read back within `depth` levels: `Library.readFormulas?_cut`.
-/

namespace Formulary

open Json (nesting nestingItems nestingMembers Restorable ReadsBack)

/-! ## Formulas -/

namespace Formula

/-- Whether a formula is read back by a reader that builds `depth` levels of its expressions. -/
def fits (depth : Nat) (f : Formula) : Bool :=
  f.expressions.all (Expr.fits depth)

/-- **A formula is read back** if all of its expressions are. -/
theorem read?_cut (depth : Nat) (f : Formula) :
    Formula.read? (Json.cut (depth + 2) f.toJson) = Option.guard (fits depth) f := by
  have hcut : Json.cut (depth + 2) f.toJson =
      .object [("name", .text f.name), ("expressions", .array (f.expressions.map fun e => Json.cut depth e.toJson))] := by
    simp only [Formula.toJson, Document.toJson, Json.cut, Json.cutMembers, Json.cutItems_eq_map, List.map_map]
    rfl
  have hr : Record.ofJson? ["name", "expressions"] (Json.cut (depth + 2) f.toJson) =
      some ⟨false, [("name", .text f.name),
        ("expressions", .array (f.expressions.map fun e => Json.cut depth e.toJson))]⟩ := by
    rw [hcut]
    exact Record.ofMembers?_of_nodup rfl (by decide)
  have hexpressions : (Document.ofJson? (.array (f.expressions.map fun e => Json.cut depth e.toJson)) :
      Option (List Expr)) = Option.guard (·.all (Expr.fits depth)) f.expressions :=
    mapM_map_guard fun e _ => Expr.read?_cut depth e
  rw [Formula.read?, hr]
  simp only [Record.required, Record.withDefault, Record.get?_cons_self, Option.bind_eq_bind, Option.bind_some,
    Json.toText?, Record.get?_cons_ne false (show "name" ≠ "expressions" by decide), hexpressions]
  exact guard_bind rfl

theorem restorable_toJson (f : Formula)
    (h : ∀ e ∈ f.expressions, ∀ x ∈ e.constants, x.isFinite = true → ReadsBack x) : Restorable f.toJson := by
  simp only [Formula.toJson, Document.toJson, Restorable, Json.RestorableMembers, Json.restorableItems_iff,
    List.forall_mem_map, true_and, and_true]
  intro e he
  exact e.restorable_toJson (h e he)

theorem nesting_toJson_le_iff (f : Formula) (depth : Nat) :
    nesting f.toJson ≤ depth + 2 ↔ ∀ e ∈ f.expressions, nesting e.toJson ≤ depth := by
  rw [← List.forall_mem_map (f := Expr.toJson) (P := fun j => nesting j ≤ depth), ← Json.nestingItems_le_iff]
  simp only [Formula.toJson, Document.toJson, nesting, nestingMembers]
  omega

end Formula

/-! ## Libraries -/

namespace Library

def constants (l : Library) : List Float :=
  l.formulas.values.flatMap fun f => f.expressions.flatMap Expr.constants

/-- **The formulas of a library are read back** if all of them are. -/
theorem readFormulas?_cut (depth : Nat) (l : Library) :
    readFormulas? (Json.cut (depth + 4) l.toJson) = Option.guard (·.all (Formula.fits depth)) l.formulas.values := by
  have hcut : Json.cut (depth + 4) l.toJson =
      .object [("formulas", .array (l.formulas.values.map fun f => Json.cut (depth + 2) f.toJson))] := by
    simp only [toJson, Json.cut, Json.cutMembers, Json.cutItems_eq_map, List.map_map]
    rfl
  have hr : Record.ofJson? ["formulas"] (Json.cut (depth + 4) l.toJson) =
      some ⟨false, [("formulas", .array (l.formulas.values.map fun f => Json.cut (depth + 2) f.toJson))]⟩ := by
    rw [hcut]
    exact Record.ofMembers?_of_nodup rfl (by decide)
  rw [readFormulas?, hr]
  simp only [Record.withDefault, Record.get?_cons_self, Option.bind_eq_bind, Option.bind_some]
  exact mapM_map_guard fun f _ => Formula.read?_cut depth f

theorem restorable_toJson (l : Library) (h : ∀ x ∈ l.constants, x.isFinite = true → ReadsBack x) :
    Restorable l.toJson := by
  simp only [toJson, Restorable, Json.RestorableMembers, Json.restorableItems_iff, List.forall_mem_map, and_true]
  intro f hf
  apply f.restorable_toJson
  intro e he x hx
  apply h x
  exact List.mem_flatMap.2 ⟨f, hf, List.mem_flatMap.2 ⟨e, he, hx⟩⟩

theorem nesting_toJson_le_iff (l : Library) (depth : Nat) :
    nesting l.toJson ≤ depth + 4 ↔ ∀ f ∈ l.formulas.values, ∀ e ∈ f.expressions, nesting e.toJson ≤ depth := by
  have h : nesting l.toJson ≤ depth + 4 ↔ ∀ f ∈ l.formulas.values, nesting f.toJson ≤ depth + 2 := by
    rw [← List.forall_mem_map (f := Formula.toJson) (P := fun j => nesting j ≤ depth + 2), ← Json.nestingItems_le_iff]
    simp only [toJson, nesting, nestingMembers]
    omega
  rw [h]
  simp only [Formula.nesting_toJson_le_iff]

/-- A library is read back whole if its literals are finite and it is not nested too deep. -/
theorem all_fits_iff (l : Library) (depth : Nat) :
    l.formulas.values.all (Formula.fits depth) = true ↔
      (∀ x ∈ l.constants, x.isFinite = true) ∧ nesting l.toJson ≤ depth + 4 := by
  rw [nesting_toJson_le_iff]
  simp only [List.all_eq_true, Formula.fits, Expr.fits, Expr.isFinite, Bool.and_eq_true, decide_eq_true_eq,
    constants, List.mem_flatMap]
  constructor
  · intro h
    refine ⟨?_, fun f hf e he => (h f hf e he).2⟩
    rintro x ⟨f, hf, e, he, hx⟩
    exact (h f hf e he).1 x hx
  · rintro ⟨hfinite, hdepth⟩ f hf e he
    exact ⟨fun x hx => hfinite x ⟨f, hf, e, he, hx⟩, hdepth f hf e he⟩

end Library

end Formulary
