import Formulary.Proofs.Library.Loading

/-!
# The history of a library

A library starts empty or is loaded, and then formulas are offered to it. What it holds is told from those that it has
accepted: under each name the first of them that has it (`contents_of_history`). One that is refused leaves no trace
(`insert_error`, `insertAll_accepted`).
-/

namespace Formulary.Library

/-- The library after some formulas were offered to it in order, whether or not it accepted them. -/
def offerAll (l : Library) (formulas : List Formula) : Library :=
  formulas.foldl (fun m f => (m.insert f).2) l

/-- Those of some formulas that a library accepts when they are offered to it in order. -/
def accepted : Library → List Formula → List Formula
  | _, [] => []
  | l, f :: rest =>
    match l.insert f with
    | (.ok _, m) => f :: accepted m rest
    | (.error _, m) => accepted m rest

/-- A library to begin with, and the formulas that it was loaded from. -/
inductive Begins : Library → List Formula → Prop where
  | empty : Begins empty []
  | loaded {s : String} {j : Json} {formulas : List Formula} {l : Library} :
    Json.parse? s = some j → Lists j formulas → parse s = .ok l → Begins l formulas

theorem Begins.insertAll_eq {l : Library} {formulas : List Formula} (h : Begins l formulas) :
    Library.insertAll Library.empty formulas = .ok l := by
  cases h with
  | empty => rfl
  | loaded hj hlists hparse => rw [← parse_of_lists_eq hj hlists, hparse]

/-- **What was refused leaves no trace**, neither when it is refused nor later. -/
theorem insertAll_accepted (l : Library) (formulas : List Formula) :
    insertAll l (accepted l formulas) = .ok (offerAll l formulas) := by
  induction formulas generalizing l with
  | nil => rfl
  | cons f rest ih =>
    rw [accepted, offerAll, List.foldl_cons]
    cases hf : l.get? f.name with
    | none =>
      rw [insert_of_none hf]
      exact (insertAll_cons_of_none hf _).trans (ih _)
    | some g =>
      rw [insert_of_some hf]
      exact ih l

/-- A formula is refused exactly if a formula of its name is there. -/
theorem insert_error_iff {l : Library} {f : Formula} {e : FormulaError} :
    (l.insert f).1 = .error e ↔ (l.get? f.name).isSome = true ∧ e = .duplicateFormula f.name := by
  rcases l.insert_cases f with ⟨hnone, hinsert⟩ | ⟨hsome, hinsert⟩ <;> rw [hinsert]
  · simp [hnone]
  · simp [hsome, eq_comm]

/-- A formula that is refused leaves the library as it was. -/
theorem insert_error {l : Library} {f : Formula} {e : FormulaError} (h : (l.insert f).1 = .error e) :
    (l.insert f).2 = l := by
  rcases l.insert_cases f with ⟨-, hinsert⟩ | ⟨-, hinsert⟩ <;> rw [hinsert] at h ⊢
  cases h

/-- **The contents of a library are told by its history.** Whatever it began with and whatever was offered to it
since: each formula stands under its own name, the names are in the order of their bytes, and each name has the first
formula of that name that was ever accepted, or none if there was none. A formula is refused exactly if one of its
name was accepted before, and the library is then what it was. -/
theorem contents_of_history {l : Library} {first : List Formula} (h : Begins l first) (offered : List Formula) :
    let m := offerAll l offered
    let history := first ++ accepted l offered
    insertAll empty history = .ok m ∧
      (∀ x ∈ m.formulas.entries, x.1 = x.2.name) ∧
      m.names.Pairwise Precedes ∧ (∀ name, name ∈ m.names ↔ name ∈ history.map Formula.name) ∧
      m.size = m.names.length ∧
      (∀ name, m.get? name = history.find? (·.name = name)) ∧
      (∀ name, m.require name = (history.find? (·.name = name)).elim (.error (.missingFormula name)) .ok) ∧
      (∀ f, (m.insert f).1 = .error (.duplicateFormula f.name) ↔ f.name ∈ history.map Formula.name) ∧
      ∀ f e, (m.insert f).1 = .error e → e = .duplicateFormula f.name ∧ (m.insert f).2 = m := by
  intro m history
  have hm : insertAll empty history = .ok m := by
    rw [insertAll_append_eq_bind, h.insertAll_eq]
    exact insertAll_accepted l offered
  have hget (name : String) : m.get? name = history.find? (·.name = name) := get?_insertAll hm name
  refine ⟨hm, (Built.empty.insertAll hm).key_eq_name, m.formulas.keys_pairwise, ?_, ?_, hget, ?_, ?_, ?_⟩
  · intro name
    rw [← find?_name_isSome, ← hget]
    exact Table.mem_keys
  · exact (List.length_map _).symm
  · intro name
    rw [require, hget]
    cases history.find? (·.name = name) <;> rfl
  · intro f
    rw [insert_error_iff, hget, find?_name_isSome, and_iff_left rfl]
  · intro f e he
    exact ⟨(insert_error_iff.1 he).2, insert_error he⟩

theorem contents_of_history_alpha_beta :
    ∃ l, parse ((listing [beta]).render .compact) = .ok l ∧
      (offerAll l [betaAgain, alpha]).names = ["α", "β"] ∧
      (offerAll l [betaAgain, alpha]).get? "β" = some beta ∧
      ((offerAll l [betaAgain, alpha]).insert betaAgain).1 = .error (.duplicateFormula "β") ∧
      ((offerAll l [betaAgain, alpha]).insert betaAgain).2 = offerAll l [betaAgain, alpha] ∧
      (offerAll l [betaAgain, alpha]).require "γ" = .error (.missingFormula "γ") := by
  have hmem : ∀ f ∈ [beta], f ∈ [alpha, beta, betaAgain] := by simp
  have hj := parse?_listing .compact hmem (by decide)
  have hlists := lists_listing hmem
  have hl : parse ((listing [beta]).render .compact) = .ok ⟨Table.ofList [("β", beta)]⟩ := parse_of_lists_eq hj hlists
  obtain ⟨-, -, -, -, -, hget, hrequire, hinsert, hrefused⟩ :=
    contents_of_history (.loaded hj hlists hl) [betaAgain, alpha]
  have herror := (hinsert betaAgain).2 (by decide)
  exact ⟨_, hl, rfl, hget "β", herror, (hrefused _ _ herror).2, hrequire "γ"⟩

end Formulary.Library
