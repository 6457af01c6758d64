import Mathlib.Data.List.Nodup
import Mathlib.Data.List.Perm.Basic
import Formulary.Proofs.Document.Senses
import Formulary.Proofs.Library.SaveLoad
import Formulary.Proofs.Table

/-!
# Loading a library

Loading inserts the formulas that a document lists (`Lists`), which works exactly if no two of them have one name
(`insertAll_of_nodup`, `insertAll_of_repetition`). What is loaded does not depend on their order: `parse_of_lists`.
-/

namespace Formulary.Library

open Json (given)

/-! ## Documents that list formulas -/

/-- Whether a value is the document of a library with some formulas, in this order: an object that gives a list of
them once or not at all, or an array of which that list is the only item, if there is one. -/
inductive Lists : Json → List Formula → Prop where
  | object {members : List (String × Json)} {items : List Json} {formulas : List Formula} :
    given members "formulas" = [.array items] →
      List.Forall₂ (fun j f => Formula.read? j = some f) items formulas → Lists (.object members) formulas
  | omitted {members : List (String × Json)} : given members "formulas" = [] → Lists (.object members) []
  | array {items : List Json} {formulas : List Formula} :
    List.Forall₂ (fun j f => Formula.read? j = some f) items formulas → Lists (.array [.array items]) formulas
  | empty : Lists (.array []) []

theorem ofJson?_formulas {j : Json} {formulas : List Formula} :
    (Document.ofJson? j : Option (List Formula)) = some formulas ↔
      ∃ items, j = .array items ∧ List.Forall₂ (fun j f => Formula.read? j = some f) items formulas := by
  show Json.toList? Formula.read? j = some formulas ↔ _
  cases j with
  | array items => simp [Json.toList?, mapM_eq_some_iff]
  | _ => simp [Json.toList?]

/-- What is read of the values that a record gives for its formulas. -/
def ofGiven? : List Json → Option (List Formula)
  | [] => some []
  | [j] => Document.ofJson? j
  | _ => none

theorem readFormulas?_object (members : List (String × Json)) :
    readFormulas? (.object members) = ofGiven? (given members "formulas") := by
  simp only [readFormulas?, Record.ofJson?, Record.ofMembers?_eq_given, List.mem_singleton, forall_eq]
  generalize hgiven : given members "formulas" = vs
  rcases vs with _ | ⟨j, _ | ⟨k, vs⟩⟩
  · simp [ofGiven?, Record.withDefault, Record.get?_eq_given, hgiven]
  · simp [ofGiven?, Record.withDefault, Record.get?_eq_given, hgiven]
  · simp [ofGiven?]

theorem readFormulas?_array (items : List Json) : readFormulas? (.array items) = ofGiven? items := by
  match items with
  | [] => rfl
  | [j] => simp [readFormulas?, Record.ofJson?, Record.ofItems?, ofGiven?, Record.withDefault, Record.get?]
  | _ :: _ :: _ => simp [readFormulas?, Record.ofJson?, Record.ofItems?, ofGiven?]

theorem ofGiven?_eq_some_iff {vs : List Json} {formulas : List Formula} :
    ofGiven? vs = some formulas ↔ vs = [] ∧ formulas = [] ∨
      ∃ items, vs = [.array items] ∧ List.Forall₂ (fun j f => Formula.read? j = some f) items formulas := by
  match vs with
  | [] => simp [ofGiven?, eq_comm]
  | [j] => simp [ofGiven?, ofJson?_formulas]
  | _ :: _ :: _ => simp [ofGiven?]

/-- The formulas that are read from a value are those that it lists. -/
theorem readFormulas?_eq_some_iff {j : Json} {formulas : List Formula} :
    readFormulas? j = some formulas ↔ Lists j formulas := by
  constructor
  · intro h
    cases j with
    | object members =>
      rw [readFormulas?_object, ofGiven?_eq_some_iff] at h
      rcases h with ⟨hgiven, rfl⟩ | ⟨items, hgiven, hitems⟩
      · exact .omitted hgiven
      · exact .object hgiven hitems
    | array items =>
      rw [readFormulas?_array, ofGiven?_eq_some_iff] at h
      rcases h with ⟨rfl, rfl⟩ | ⟨items, rfl, hitems⟩
      · exact .empty
      · exact .array hitems
    | _ => simp [readFormulas?, Record.ofJson?] at h
  · intro h
    cases h with
    | object hgiven hitems => exact (readFormulas?_object _).trans (ofGiven?_eq_some_iff.2 (.inr ⟨_, hgiven, hitems⟩))
    | omitted hgiven => exact (readFormulas?_object _).trans (ofGiven?_eq_some_iff.2 (.inl ⟨hgiven, rfl⟩))
    | array hitems => exact (readFormulas?_array _).trans (ofGiven?_eq_some_iff.2 (.inr ⟨_, rfl, hitems⟩))
    | empty => rfl

/-- Documents that list the same formulas, perhaps in another order. -/
inductive Reordered : Json → Json → Prop where
  | object {before after : List (String × Json)} {items items' : List Json} : items.Perm items' →
    Reordered (.object (before ++ ("formulas", .array items) :: after))
      (.object (before ++ ("formulas", .array items') :: after))
  | array {items items' : List Json} : items.Perm items' → Reordered (.array [.array items]) (.array [.array items'])

theorem Lists.of_reordered {j j' : Json} {formulas : List Formula} (h : Lists j formulas) (hj : Reordered j j') :
    ∃ formulas', Lists j' formulas' ∧ formulas'.Perm formulas := by
  cases hj with
  | object hperm =>
    cases h with
    | object hgiven hitems =>
      rw [Json.given_middle] at hgiven
      obtain ⟨hbefore, hsingle⟩ := (List.append_eq_singleton_iff.1 hgiven).resolve_right (by simp)
      obtain ⟨hhead, hafter⟩ := List.cons.inj hsingle
      obtain rfl := Json.array.inj hhead
      obtain ⟨formulas', hitems', hformulas⟩ := List.perm_comp_forall₂ hperm.symm hitems
      refine ⟨formulas', .object ?_ hitems', hformulas⟩
      rw [Json.given_middle, hbefore, hafter, List.nil_append]
    | omitted hgiven => simp [Json.given_middle] at hgiven
  | array hperm =>
    cases h with
    | array hitems =>
      obtain ⟨formulas', hitems', hformulas⟩ := List.perm_comp_forall₂ hperm.symm hitems
      exact ⟨formulas', .array hitems', hformulas⟩

/-! ## Insertions -/

theorem get?_insert_formula (l : Library) (f : Formula) (name : String) :
    get? ⟨l.formulas.insert f.name f⟩ name = if name = f.name then some f else l.get? name :=
  Table.get?_insert ..

/-- After some insertions that succeed each name has the formula that it had, or else the first that was inserted
under it. -/
theorem get?_insertAll {l m : Library} {formulas : List Formula} (h : insertAll l formulas = .ok m) (name : String) :
    m.get? name = (l.get? name).or (formulas.find? (·.name = name)) := by
  induction formulas generalizing l with
  | nil =>
    cases h
    simp
  | cons f rest ih =>
    cases hf : l.get? f.name with
    | none =>
      rw [insertAll_cons_of_none hf] at h
      rw [ih h, get?_insert_formula]
      by_cases hname : name = f.name
      · subst hname
        simp [hf]
      · simp [hname, Ne.symm hname]
    | some g =>
      rw [insertAll_cons_of_some hf] at h
      cases h

theorem insertAll_append_eq_bind (l : Library) (before after : List Formula) :
    insertAll l (before ++ after) = insertAll l before >>= fun m => insertAll m after := by
  induction before generalizing l with
  | nil => rfl
  | cons f rest ih =>
    rw [List.cons_append]
    cases hf : l.get? f.name with
    | none =>
      rw [insertAll_cons_of_none hf, insertAll_cons_of_none hf]
      exact ih _
    | some g =>
      rw [insertAll_cons_of_some hf, insertAll_cons_of_some hf]
      rfl

/-- The formula that is found under a name, if the name has a formula at all. -/
theorem find?_name_isSome {formulas : List Formula} {name : String} :
    (formulas.find? (·.name = name)).isSome = true ↔ name ∈ formulas.map Formula.name := by
  simp [List.find?_isSome]

/-- Formulas of distinct names are all accepted. -/
theorem insertAll_of_nodup {formulas : List Formula} (h : (formulas.map Formula.name).Nodup) :
    ∃ l, insertAll empty formulas = .ok l := by
  induction formulas using List.reverseRecOn with
  | nil => exact ⟨empty, rfl⟩
  | append_singleton rest f ih =>
    rw [List.map_append, List.nodup_append] at h
    obtain ⟨hrest, -, hdisjoint⟩ := h
    obtain ⟨l, hl⟩ := ih hrest
    have hfresh : l.get? f.name = none := by
      rw [get?_insertAll hl, ← Option.not_isSome_iff_eq_none]
      intro hsome
      exact hdisjoint f.name (find?_name_isSome.1 hsome) f.name (by simp) rfl
    refine ⟨⟨l.formulas.insert f.name f⟩, ?_⟩
    rw [insertAll_append_eq_bind, hl]
    exact insertAll_cons_of_none hfresh []

/-- A formula whose name was there before is refused, and with it all that follow. -/
theorem insertAll_of_repetition {before after : List Formula} {f : Formula}
    (hbefore : (before.map Formula.name).Nodup) (hf : f.name ∈ before.map Formula.name) :
    insertAll empty (before ++ f :: after) = .error (.duplicateFormula f.name) := by
  obtain ⟨l, hl⟩ := insertAll_of_nodup hbefore
  have hsome : (l.get? f.name).isSome = true := by
    rw [get?_insertAll hl]
    exact find?_name_isSome.2 hf
  obtain ⟨g, hg⟩ := Option.isSome_iff_exists.1 hsome
  rw [insertAll_append_eq_bind, hl]
  exact insertAll_cons_of_some hg after

theorem insertAll_eq_ok_iff_nodup {formulas : List Formula} :
    (∃ l, insertAll empty formulas = .ok l) ↔ (formulas.map Formula.name).Nodup := by
  constructor
  · rintro ⟨l, hl⟩
    by_contra h
    obtain ⟨before, f, after, rfl, hbefore, hf⟩ := exists_first_repetition h
    simp [insertAll_of_repetition hbefore hf] at hl
  · exact insertAll_of_nodup

/-! ## The order of insertions -/

theorem ext_get? {l m : Library} (h : ∀ name, l.get? name = m.get? name) : l = m := by
  obtain ⟨t⟩ := l
  obtain ⟨u⟩ := m
  exact congrArg Library.mk (Table.ext_get? h)

/-- Of formulas with distinct names the one that is found under a name is the one that has it. -/
theorem find?_name_eq_some_iff {formulas : List Formula} (h : (formulas.map Formula.name).Nodup) {name : String}
    {f : Formula} : formulas.find? (·.name = name) = some f ↔ f ∈ formulas ∧ f.name = name := by
  constructor
  · intro hfind
    exact ⟨List.mem_of_find?_eq_some hfind, by simpa using List.find?_some hfind⟩
  · rintro ⟨hf, rfl⟩
    obtain ⟨g, hg⟩ := Option.isSome_iff_exists.1 (find?_name_isSome.2 (List.mem_map_of_mem hf))
    have hname : g.name = f.name := by simpa using List.find?_some hg
    rw [hg, List.inj_on_of_nodup_map h (List.mem_of_find?_eq_some hg) hf hname]

/-- **The order of insertions does not matter.** -/
theorem insertAll_perm {formulas formulas' : List Formula} {l : Library} (h : insertAll empty formulas = .ok l)
    (hperm : formulas'.Perm formulas) : insertAll empty formulas' = .ok l := by
  have hnodup : (formulas.map Formula.name).Nodup := insertAll_eq_ok_iff_nodup.1 ⟨l, h⟩
  have hnodup' : (formulas'.map Formula.name).Nodup := (hperm.map Formula.name).nodup_iff.2 hnodup
  obtain ⟨m, hm⟩ := insertAll_of_nodup hnodup'
  have heq : m = l := by
    apply ext_get?
    intro name
    rw [get?_insertAll hm, get?_insertAll h]
    congr 1
    ext f
    rw [find?_name_eq_some_iff hnodup', find?_name_eq_some_iff hnodup, hperm.mem_iff]
  rw [hm, heq]

/-! ## Loading -/

theorem parse_of_lists_eq {s : String} {j : Json} {formulas : List Formula} (hj : Json.parse? s = some j)
    (h : Lists j formulas) : parse s = insertAll empty formulas := by
  rw [parse, hj, Option.bind_some, readFormulas?_eq_some_iff.2 h]

/-- **Loading is exact, and does not depend on the order.** A text that lists formulas is loaded exactly if their
names are distinct; if not, the first formula whose name was there before is named. The library that is loaded is also
the one that the formulas lead to when they are inserted in any order, or when their document lists them in any
order. A text that is no document of this kind is malformed, even where an earlier part of it repeats a name. -/
theorem parse_of_lists (s : String) :
    (∀ j formulas, Json.parse? s = some j → Lists j formulas →
      ((∃ l, parse s = .ok l) ↔ (formulas.map Formula.name).Nodup) ∧
      (¬ (formulas.map Formula.name).Nodup → ∃ before f after, formulas = before ++ f :: after ∧
        (before.map Formula.name).Nodup ∧ f.name ∈ before.map Formula.name ∧
          parse s = .error (.duplicateFormula f.name)) ∧
      ∀ l, parse s = .ok l → (∀ formulas', formulas'.Perm formulas → insertAll empty formulas' = .ok l) ∧
        ∀ s' j', Json.parse? s' = some j' → Reordered j j' → parse s' = .ok l) ∧
    ((∀ j formulas, Json.parse? s = some j → ¬ Lists j formulas) → parse s = .error .malformed) := by
  constructor
  · intro j formulas hj hlists
    rw [parse_of_lists_eq hj hlists]
    refine ⟨insertAll_eq_ok_iff_nodup, ?_, ?_⟩
    · intro hrepeated
      obtain ⟨before, f, after, rfl, hbefore, hf⟩ := exists_first_repetition hrepeated
      exact ⟨before, f, after, rfl, hbefore, hf, insertAll_of_repetition hbefore hf⟩
    · intro l hl
      refine ⟨fun formulas' hperm => insertAll_perm hl hperm, ?_⟩
      intro s' j' hj' hreordered
      obtain ⟨formulas', hlists', hperm⟩ := hlists.of_reordered hreordered
      rw [parse_of_lists_eq hj' hlists']
      exact insertAll_perm hl hperm
  · intro hnone
    unfold parse
    split
    · next formulas hread =>
      obtain ⟨j, hj, hread⟩ := Option.bind_eq_some_iff.1 hread
      exact absurd (readFormulas?_eq_some_iff.1 hread) (hnone j formulas hj)
    · rfl

def listing (formulas : List Formula) : Json :=
  .object [("formulas", .array (formulas.map Formula.toJson))]

def alpha : Formula := ⟨"α", [.mastery]⟩

def beta : Formula := ⟨"β", [.euler]⟩

def betaAgain : Formula := ⟨"β", []⟩

theorem restorable_listing {formulas : List Formula} (h : ∀ f ∈ formulas, f ∈ [alpha, beta, betaAgain]) :
    (listing formulas).Restorable := by
  simp only [listing, Json.Restorable, Json.RestorableMembers, Json.restorableItems_iff, List.forall_mem_map, and_true]
  intro f hf
  apply f.restorable_toJson
  have hnone : ∀ f ∈ [alpha, beta, betaAgain], ∀ e ∈ f.expressions, e.constants = [] := by decide
  intro e he x hx
  rw [hnone f (h f hf) e he] at hx
  exact absurd hx List.not_mem_nil

theorem lists_listing {formulas : List Formula} (h : ∀ f ∈ formulas, f ∈ [alpha, beta, betaAgain]) :
    Lists (listing formulas) formulas := by
  refine .object rfl ?_
  rw [List.forall₂_map_left_iff, List.forall₂_same]
  intro f hf
  have hread : ∀ f ∈ [alpha, beta, betaAgain], Formula.read? f.toJson = some f := by
    simp only [List.forall_mem_cons]
    exact ⟨rfl, rfl, rfl, by simp⟩
  exact hread f (h f hf)

theorem parse?_listing (layout : Json.Layout) {formulas : List Formula}
    (h : ∀ f ∈ formulas, f ∈ [alpha, beta, betaAgain]) (hdepth : Json.nesting (listing formulas) ≤ Json.deepest) :
    Json.parse? ((listing formulas).render layout) = some (listing formulas) :=
  Json.parse?_render layout (restorable_listing h) hdepth

theorem parse_of_lists_alpha_beta :
    (∃ l, parse ((listing [beta, alpha]).render .indented) = .ok l ∧ insertAll empty [alpha, beta] = .ok l ∧
      parse ((listing [alpha, beta]).render .compact) = .ok l) ∧
      parse ((listing [beta, alpha, betaAgain]).render .compact) = .error (.duplicateFormula "β") ∧
      parse ((Json.object [("formulas", .array [beta.toJson, betaAgain.toJson, .null])]).render .compact) =
        .error .malformed := by
  have hswap : [alpha, beta].Perm [beta, alpha] := .swap ..
  refine ⟨?_, ?_, ?_⟩
  · have hmem : ∀ f ∈ [beta, alpha], f ∈ [alpha, beta, betaAgain] := by simp
    have hmem' : ∀ f ∈ [alpha, beta], f ∈ [alpha, beta, betaAgain] := by simp
    obtain ⟨hok, -, hsame⟩ := (parse_of_lists ((listing [beta, alpha]).render .indented)).1 _ _
      (parse?_listing .indented hmem (by decide)) (lists_listing hmem)
    obtain ⟨l, hl⟩ := hok.2 (by decide)
    have hreordered : Reordered (listing [beta, alpha]) (listing [alpha, beta]) :=
      @Reordered.object [] [] _ _ (hswap.symm.map Formula.toJson)
    exact ⟨l, hl, (hsame l hl).1 _ hswap, (hsame l hl).2 _ _ (parse?_listing .compact hmem' (by decide)) hreordered⟩
  · have hmem : ∀ f ∈ [beta, alpha, betaAgain], f ∈ [alpha, beta, betaAgain] := by simp
    obtain ⟨-, hrepeated, -⟩ := (parse_of_lists ((listing [beta, alpha, betaAgain]).render .compact)).1 _ _
      (parse?_listing .compact hmem (by decide)) (lists_listing hmem)
    obtain ⟨before, f, after, heq, hnodup, hf, hparse⟩ := hrepeated (by decide)
    have hname : f.name = "β" := by
      match before, heq with
      | [], _ => exact absurd hf List.not_mem_nil
      | [_], heq =>
        obtain ⟨rfl, rfl, -⟩ : beta = _ ∧ alpha = f ∧ _ := by simpa using heq
        exact absurd hf (by decide)
      | [_, _], heq =>
        obtain ⟨-, -, rfl, -⟩ : beta = _ ∧ alpha = _ ∧ betaAgain = f ∧ _ := by simpa using heq
        rfl
      | _ :: _ :: _ :: _, heq => simp at heq
    rw [hparse, hname]
  · have hrestorable : (Json.object [("formulas", .array [beta.toJson, betaAgain.toJson, .null])]).Restorable := by
      simp [Json.Restorable, Json.RestorableMembers, Json.RestorableItems, Formula.toJson, beta, betaAgain,
        Document.toJson, Expr.toJson, Expr.nodeJson]
    apply (parse_of_lists _).2
    intro j formulas hj hlists
    rw [Json.parse?_render .compact hrestorable (by decide)] at hj
    obtain rfl := Option.some.inj hj
    have hread : none = some formulas := readFormulas?_eq_some_iff.2 hlists
    exact absurd hread (by simp)

end Formulary.Library
