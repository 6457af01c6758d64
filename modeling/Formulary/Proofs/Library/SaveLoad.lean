import Formulary.Proofs.Document.Library
import Formulary.Proofs.Json.Brackets
import Formulary.Proofs.Library.Built

/-!
# Saving and loading

Two things can keep a library that was built from being loaded again: a literal that is not finite, for which `null` is
written, and more brackets inside one another than a reader builds (`parse_text_of_built`).

Reading a number does not round to the nearest double. That the literals of the library are read as what they are is
assumed (`Json.ReadsBack`).
-/

namespace Formulary.Library

open Json (nesting bracketDepth ReadsBack)

/-- What is loaded from the document of a library, whichever way it is laid out. -/
theorem parse_render {l : Library} (layout : Json.Layout) (hl : Built l)
    (hnumbers : ∀ x ∈ l.constants, x.isFinite = true → ReadsBack x) :
    parse (l.toJson.render layout) =
      if (∀ x ∈ l.constants, x.isFinite = true) ∧ nesting l.toJson ≤ Json.deepest then .ok l
      else .error .malformed := by
  have hread : (Json.parse? (l.toJson.render layout)).bind readFormulas? =
      Option.guard (·.all (Formula.fits 123)) l.formulas.values := by
    rw [Json.parse?, Json.parseWithin?_render layout (l.restorable_toJson hnumbers) Json.deepest]
    exact readFormulas?_cut 123 l
  have hiff : l.formulas.values.all (Formula.fits 123) = true ↔
      (∀ x ∈ l.constants, x.isFinite = true) ∧ nesting l.toJson ≤ Json.deepest :=
    l.all_fits_iff 123
  rw [parse, hread]
  by_cases hfits : l.formulas.values.all (Formula.fits 123) = true
  · rw [if_pos (hiff.1 hfits), Option.guard_eq_ite, if_pos hfits]
    exact hl.insertAll_values
  · rw [if_neg fun h => hfits (hiff.2 h), Option.guard_eq_none_iff.2 (by simpa using hfits)]

/-- **Saving and loading loses nothing**, exactly within the limits of documents: the library that is loaded
is the one that was saved if its literals are finite and at most 127 brackets of the text stand inside one
another, and otherwise nothing is loaded. -/
theorem parse_text_of_built {l : Library} (hl : Built l)
    (hnumbers : ∀ x ∈ l.constants, x.isFinite = true → ReadsBack x) :
    (parse l.text = .ok l ↔ (∀ x ∈ l.constants, x.isFinite = true) ∧ bracketDepth l.text ≤ 127) ∧
      (parse l.text ≠ .ok l → parse l.text = .error .malformed) := by
  have hdepth : bracketDepth l.text = nesting l.toJson := Json.bracketDepth_render .indented l.toJson
  rw [hdepth, text, parse_render .indented hl hnumbers]
  split
  · next h => exact ⟨iff_of_true rfl h, fun hne => absurd rfl hne⟩
  · next h => exact ⟨iff_of_false (by simp) h, fun _ => rfl⟩

def chained : Formula := ⟨"β", [.chain .addition [some (.constant 1.5), none]]⟩

def negativeZero : Formula := ⟨"a", [.constant (-0.0)]⟩

def twoFormulas : Library :=
  ⟨Table.ofList [("β", chained), ("a", negativeZero)]⟩

theorem twoFormulas_built : Built twoFormulas := by
  have h : insertAll empty [chained, negativeZero] = .ok twoFormulas := rfl
  exact Built.insertAll .empty h

theorem parse_text_twoFormulas : parse twoFormulas.text = .ok twoFormulas := by
  have hnumbers : ∀ x ∈ twoFormulas.constants, x.isFinite = true → ReadsBack x := by decide +kernel
  have hfinite : ∀ x ∈ twoFormulas.constants, x.isFinite = true := by decide +kernel
  have hdepth : bracketDepth twoFormulas.text ≤ 127 := by
    rw [text, Json.bracketDepth_render]
    decide +kernel
  exact (parse_text_of_built twoFormulas_built hnumbers).1.2 ⟨hfinite, hdepth⟩

end Formulary.Library
