import Formulary.Proofs.Document.Accepted
import Formulary.Proofs.Json.Depth
import Formulary.Proofs.Library.SaveLoad

/-!
# Loading, saving and loading again

A list that is left out of a document counts as an empty one, and an empty list is written with its brackets. So a
document that is nested as deeply as documents may be can load and still not be loaded again once it is saved
(`not_parse_text_deepest`). That is the only way it can fail (`parse_text_of_parse`).
-/

namespace Formulary.Library

open Json (nesting bracketDepth ReadsBack)

/-- A library that was loaded was built, has only finite literals, and is written at most one level deeper than
the text it was loaded from. -/
theorem of_parse {t : String} {l : Library} (h : parse t = .ok l) :
    Built l ∧ (∀ x ∈ l.constants, x.isFinite = true) ∧ nesting l.toJson ≤ bracketDepth t + 1 := by
  unfold parse at h
  split at h
  · next formulas hformulas =>
    obtain ⟨j, hj, hread⟩ := Option.bind_eq_some_iff.1 hformulas
    obtain ⟨hfinite, hnesting⟩ := readFormulas?_kept ⟨(Json.parse?_sound hj).1, Nat.le_refl _⟩ hread
    have hmem : ∀ f ∈ l.formulas.values, f ∈ formulas := by
      intro f hf
      rcases mem_values_insertAll h f hf with hf | hf
      · exact absurd hf List.not_mem_nil
      · exact hf
    refine ⟨Built.empty.insertAll h, ?_, ?_⟩
    · intro x hx
      obtain ⟨f, hf, hx⟩ := List.mem_flatMap.1 hx
      obtain ⟨e, he, hx⟩ := List.mem_flatMap.1 hx
      exact List.all_eq_true.1 (hfinite f (hmem f hf) e he) x hx
    · have hvalues : Json.nestingItems (l.formulas.values.map Formula.toJson) ≤
          Json.nestingItems (formulas.map Formula.toJson) := by
        rw [Json.nestingItems_le_iff, List.forall_mem_map]
        intro f hf
        exact Json.nestingItems_le_iff.1 (Nat.le_refl _) _ (List.mem_map_of_mem (hmem f hf))
      have hdepth := Json.nesting_le_bracketDepth hj
      simp only [toJson, nesting, Json.nestingMembers]
      omega
  · exact absurd h (by simp)

/-- **What loads can be saved and loaded again** exactly if at most 127 brackets of what is saved stand inside
one another. These are at most one more than in the text that was loaded. -/
theorem parse_text_of_parse {t : String} {l : Library} (ht : parse t = .ok l)
    (hnumbers : ∀ x ∈ l.constants, x.isFinite = true → ReadsBack x) :
    (parse l.text = .ok l ↔ bracketDepth l.text ≤ 127) ∧
      (parse l.text ≠ .ok l → parse l.text = .error .malformed) ∧
      bracketDepth l.text ≤ bracketDepth t + 1 := by
  obtain ⟨hbuilt, hfinite, hnesting⟩ := of_parse ht
  have hdepth : bracketDepth l.text = nesting l.toJson := Json.bracketDepth_render .indented l.toJson
  rw [hdepth, text, parse_render .indented hbuilt hnumbers]
  refine ⟨?_, ?_, hnesting⟩
  · split
    · next h => exact iff_of_true rfl h.2
    · next h =>
      apply iff_of_false (by simp)
      intro hle
      exact h ⟨hfinite, hle⟩
  · intro hne
    split at hne
    · exact absurd rfl hne
    · next h => rw [if_neg h]

theorem parse_text_of_parse_twoFormulas : parse (twoFormulas.toJson.render .compact) = .ok twoFormulas ∧
    parse twoFormulas.text = .ok twoFormulas := by
  have hnumbers : ∀ x ∈ twoFormulas.constants, x.isFinite = true → ReadsBack x := by decide +kernel
  have hparse : parse (twoFormulas.toJson.render .compact) = .ok twoFormulas := by
    rw [parse_render .compact twoFormulas_built hnumbers, if_pos (by decide +kernel)]
  have hdepth : bracketDepth twoFormulas.text ≤ 127 := by
    rw [text, Json.bracketDepth_render]
    decide +kernel
  exact ⟨hparse, (parse_text_of_parse hparse hnumbers).1.2 hdepth⟩

/-! ## The deepest documents -/

/-- An empty sum as the power of `n` exponentials inside one another. -/
def tower : Nat → Expr
  | 0 => .chain .addition []
  | n + 1 => .exponential (some (tower n))

/-- The tower as a document may spell it, without the empty list of the sum. -/
def towerJson : Nat → Json
  | 0 => Expr.nodeJson (.chain .addition) []
  | n + 1 => Expr.nodeJson .exponential [("power", towerJson n)]

/-- A document with one formula, which is a tower. -/
def towerDocument (n : Nat) : Json :=
  .object [("formulas", .array [.object [("name", .text "f"), ("expressions", .array [towerJson n])]])]

def towerLibrary (n : Nat) : Library :=
  ⟨Table.ofList [("f", ⟨"f", [tower n]⟩)]⟩

theorem nesting_towerJson (n : Nat) : nesting (towerJson n) = n + 1 := by
  induction n with
  | zero => rfl
  | succ n ih =>
    simp only [towerJson, Expr.nodeJson, nesting, Json.nestingMembers, ih]
    omega

theorem nesting_tower (n : Nat) : nesting (tower n).toJson = n + 2 := by
  induction n with
  | zero => rfl
  | succ n ih =>
    simp only [tower, Expr.toJson, Expr.slotJson, Expr.nodeJson, nesting, Json.nestingMembers, ih]
    omega

theorem constants_tower (n : Nat) : (tower n).constants = [] := by
  induction n with
  | zero => rfl
  | succ n ih => simp only [tower, Expr.constants, Expr.slotConstants, ih]

theorem readable_towerJson (n : Nat) : (towerJson n).readable = true := by
  induction n with
  | zero => rfl
  | succ n ih => simp [towerJson, Expr.nodeJson, Json.readable, Json.readableMembers, ih]

theorem restorable_towerJson (n : Nat) : (towerJson n).Restorable := by
  induction n with
  | zero => simp [towerJson, Expr.nodeJson, Json.Restorable, Json.RestorableMembers]
  | succ n ih => simp [towerJson, Expr.nodeJson, Json.Restorable, Json.RestorableMembers, ih]

theorem readNode_towerJson (place : Place) (n : Nat) {depth : Nat} (h : n ≤ depth) :
    Expr.readNode place (Expr.readWithin depth) (towerJson n) = some (tower n) := by
  induction n generalizing place depth with
  | zero => cases place <;> rfl
  | succ n ih =>
    obtain ⟨depth, rfl⟩ : ∃ d, depth = d + 1 := ⟨depth - 1, by omega⟩
    have hnull : towerJson n ≠ .null := by cases n <;> simp [towerJson, Expr.nodeJson]
    rw [towerJson, Expr.readNode_nodeJson place _ rfl, Expr.ofRecord?_exponential,
      Json.toOption?_of_ne_null hnull, Expr.readWithin, ih .inner (by omega)]
    rfl

/-- The document of a tower is read as the formula that is the tower. -/
theorem readFormulas?_towerDocument (n : Nat) : readFormulas? (towerDocument n) = some [⟨"f", [tower n]⟩] := by
  have htower : Expr.read? (towerJson n) = some (tower n) := by
    rw [Expr.read?, if_pos (readable_towerJson n)]
    exact readNode_towerJson .outer n (by rw [nesting_towerJson]; omega)
  have hformula : Formula.read? (.object [("name", .text "f"), ("expressions", .array [towerJson n])]) =
      some ⟨"f", [tower n]⟩ := by
    have hexpressions : (Document.ofJson? (.array [towerJson n]) : Option (List Expr)) = some [tower n] := by
      show [towerJson n].mapM Expr.read? = some [tower n]
      simp [htower]
    simp [Formula.read?, Record.ofJson?, Record.ofMembers?, Record.required, Record.withDefault, Record.get?,
      Json.toText?, hexpressions]
  have hformulas : (Document.ofJson? (.array [.object [("name", .text "f"), ("expressions", .array [towerJson n])]]) :
      Option (List Formula)) = some [⟨"f", [tower n]⟩] := by
    show [Json.object _].mapM Formula.read? = _
    simp [hformula]
  simp [towerDocument, readFormulas?, Record.ofJson?, Record.ofMembers?, Record.withDefault, Record.get?, hformulas]

/-- A tower loads if its document is not nested too deep. -/
theorem parse_towerDocument {n : Nat} (h : n + 5 ≤ Json.deepest) :
    parse ((towerDocument n).render .compact) = .ok (towerLibrary n) := by
  have hnesting : nesting (towerDocument n) ≤ Json.deepest := by
    simp only [towerDocument, nesting, Json.nestingItems, Json.nestingMembers, nesting_towerJson]
    omega
  have hrestorable : (towerDocument n).Restorable := by
    simp [towerDocument, Json.Restorable, Json.RestorableItems, Json.RestorableMembers, restorable_towerJson n]
  rw [parse, Json.parse?_render .compact hrestorable hnesting, Option.bind_some, readFormulas?_towerDocument]
  rfl

/-- **A library that loads and, once saved, does not load again**: the document is nested 127 deep, and what is
written for the empty sum at its bottom needs one level more. -/
theorem not_parse_text_deepest :
    parse ((towerDocument 122).render .compact) = .ok (towerLibrary 122) ∧
      parse (towerLibrary 122).text = .error .malformed := by
  have hparse : parse ((towerDocument 122).render .compact) = .ok (towerLibrary 122) :=
    parse_towerDocument (by decide)
  have hconstants : (towerLibrary 122).constants = [] := by
    show (Expr.constants (tower 122) ++ []) ++ [] = []
    simp [constants_tower]
  have hnesting : nesting (towerLibrary 122).toJson = 128 := by
    have h : (towerLibrary 122).toJson = .object [("formulas", .array [.object [("name", .text "f"),
      ("expressions", .array [(tower 122).toJson])]])] := rfl
    simp only [h, nesting, Json.nestingItems, Json.nestingMembers, nesting_tower]
    rfl
  refine ⟨hparse, ?_⟩
  rw [text, parse_render .indented (of_parse hparse).1 (by simp [hconstants]), if_neg]
  rw [hnesting]
  intro h
  exact absurd h.2 (by decide)

end Formulary.Library
