import Formulary.Library

/-!
# Libraries that were built

A library is built by inserting formulas, one after the other, into the empty one. In such a library every
formula stands under its own name (`Built.key_eq_name`), and inserting its formulas in the order of their
names builds it anew (`Built.insertAll_values`).
-/

namespace Formulary

namespace Table
variable {κ : Type} [Named κ] {ν : Type} [DecidableEq κ]

/-- A name that follows all others is put at the end. -/
theorem put_of_forall_precedes {k : κ} {v : ν} {entries : List (κ × ν)} (h : ∀ x ∈ entries, Precedes x.1 k) :
    put k v entries = entries ++ [(k, v)] := by
  induction entries with
  | nil => rfl
  | cons entry rest ih =>
    have hk : Precedes entry.1 k := h entry List.mem_cons_self
    rw [put, if_neg hk.ne.symm, if_neg hk.asymm, ih, List.cons_append]
    intro x hx
    exact h x (List.mem_cons_of_mem _ hx)

theorem find?_eq_none_of_forall_precedes {k : κ} {entries : List (κ × ν)} (h : ∀ x ∈ entries, Precedes x.1 k) :
    find? k entries = none := by
  induction entries with
  | nil => rfl
  | cons entry rest ih =>
    have hk : Precedes entry.1 k := h entry List.mem_cons_self
    rw [find?, if_neg hk.ne.symm]
    apply ih
    intro x hx
    exact h x (List.mem_cons_of_mem _ hx)

end Table

namespace Library

/-! ## One insertion -/

theorem insert_of_none {l : Library} {f : Formula} (h : l.get? f.name = none) :
    l.insert f = (.ok (), ⟨l.formulas.insert f.name f⟩) := by
  have hcontains : ¬ l.formulas.contains f.name = true := by rw [Table.contains, ← get?, h]; simp
  rw [insert, if_neg hcontains]

theorem insert_of_some {l : Library} {f g : Formula} (h : l.get? f.name = some g) :
    l.insert f = (.error (.duplicateFormula f.name), l) := by
  have hcontains : l.formulas.contains f.name = true := by rw [Table.contains, ← get?, h]; rfl
  rw [insert, if_pos hcontains]

/-- What an insertion can do. -/
theorem insert_cases (l : Library) (f : Formula) :
    l.get? f.name = none ∧ l.insert f = (.ok (), ⟨l.formulas.insert f.name f⟩) ∨
      (l.get? f.name).isSome = true ∧ l.insert f = (.error (.duplicateFormula f.name), l) := by
  cases h : l.get? f.name with
  | none => exact .inl ⟨rfl, insert_of_none h⟩
  | some g => exact .inr ⟨rfl, insert_of_some h⟩

theorem insertAll_cons_of_none {l : Library} {f : Formula} (h : l.get? f.name = none) (rest : List Formula) :
    insertAll l (f :: rest) = insertAll ⟨l.formulas.insert f.name f⟩ rest := by
  rw [insertAll, insert_of_none h]

theorem insertAll_cons_of_some {l : Library} {f g : Formula} (h : l.get? f.name = some g) (rest : List Formula) :
    insertAll l (f :: rest) = .error (.duplicateFormula f.name) := by
  rw [insertAll, insert_of_some h]

/-! ## Many insertions -/

/-- The libraries that insertions lead to, those that are refused among them. -/
inductive Built : Library → Prop where
  | empty : Built empty
  | insert {l : Library} (f : Formula) (built : Built l) : Built (l.insert f).2

/-- Several insertions that succeed lead to a library that was built. -/
theorem Built.insertAll {l m : Library} {formulas : List Formula} (hl : Built l)
    (h : Library.insertAll l formulas = .ok m) : Built m := by
  induction formulas generalizing l with
  | nil =>
    cases h
    exact hl
  | cons f rest ih =>
    have hbuilt : Built (l.insert f).2 := .insert f hl
    cases hf : l.get? f.name with
    | none =>
      rw [insert_of_none hf] at hbuilt
      rw [insertAll_cons_of_none hf] at h
      exact ih hbuilt h
    | some g =>
      rw [insertAll_cons_of_some hf] at h
      cases h

/-- Every formula of a library was there before some insertions or is one of those inserted. -/
theorem mem_values_insertAll {l m : Library} {formulas : List Formula} (h : insertAll l formulas = .ok m) :
    ∀ f ∈ m.formulas.values, f ∈ l.formulas.values ∨ f ∈ formulas := by
  induction formulas generalizing l with
  | nil =>
    cases h
    intro f hf
    exact .inl hf
  | cons g rest ih =>
    cases hg : l.get? g.name with
    | some g' =>
      rw [insertAll_cons_of_some hg] at h
      cases h
    | none =>
      rw [insertAll_cons_of_none hg] at h
      intro f hf
      rcases ih h f hf with hf | hf
      · obtain ⟨x, hx, rfl⟩ := List.mem_map.1 hf
        rcases Table.mem_put hx with rfl | hx
        · exact .inr List.mem_cons_self
        · exact .inl (List.mem_map_of_mem hx)
      · exact .inr (List.mem_cons_of_mem _ hf)

/-- Every formula stands under its own name. -/
theorem Built.key_eq_name {l : Library} (hl : Built l) : ∀ x ∈ l.formulas.entries, x.1 = x.2.name := by
  induction hl with
  | empty =>
    intro x hx
    exact absurd hx List.not_mem_nil
  | @insert l f _ ih =>
    rcases insert_cases l f with ⟨-, hinsert⟩ | ⟨-, hinsert⟩ <;> rw [hinsert]
    · intro x hx
      rcases Table.mem_put hx with rfl | hx
      · rfl
      · exact ih x hx
    · exact ih

theorem ext_entries {l m : Library} (h : l.formulas.entries = m.formulas.entries) : l = m := by
  obtain ⟨⟨entries, ascending⟩⟩ := l
  obtain ⟨⟨entries', ascending'⟩⟩ := m
  obtain rfl : entries = entries' := h
  rfl

/-- Formulas in the order of their names, all of which follow those of a library, are added at its end. -/
theorem insertAll_append {m : Library} : ∀ {entries : List (String × Formula)} {l : Library},
    m.formulas.entries = l.formulas.entries ++ entries → (∀ x ∈ entries, x.1 = x.2.name) →
      insertAll l (entries.map (·.2)) = .ok m
  | [], l, h, _ => by
    rw [List.append_nil] at h
    rw [ext_entries h]
    rfl
  | (name, f) :: rest, l, h, hnames => by
    obtain rfl : name = f.name := hnames (name, f) List.mem_cons_self
    have hascending := m.formulas.ascending
    rw [h, Ascending, List.pairwise_append] at hascending
    have hlast : ∀ x ∈ l.formulas.entries, Precedes x.1 f.name :=
      fun x hx => hascending.2.2 x hx (f.name, f) List.mem_cons_self
    have hnew : l.get? f.name = none := Table.find?_eq_none_of_forall_precedes hlast
    have hentries : (l.formulas.insert f.name f).entries = l.formulas.entries ++ [(f.name, f)] :=
      Table.put_of_forall_precedes hlast
    rw [List.map_cons, insertAll_cons_of_none hnew]
    refine insertAll_append ?_ fun x hx => hnames x (List.mem_cons_of_mem _ hx)
    rw [h, hentries, List.append_assoc]
    rfl

/-- **Inserting the formulas of a library in their order builds it anew.** -/
theorem Built.insertAll_values {l : Library} (hl : Built l) :
    Library.insertAll Library.empty l.formulas.values = .ok l :=
  insertAll_append rfl hl.key_eq_name

end Library

end Formulary
