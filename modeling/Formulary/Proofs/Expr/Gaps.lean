import Formulary.Expr.Validation
import Formulary.Library

/-!
# Gaps in reading order

A gap is an operand that is missing where a node cannot do without it. To validate is to report the first one in reading
order (`validate_eq_report`). Trees without gaps are those that can be built from complete operands (`gaps_eq_nil_iff`).
-/

namespace Formulary

/-- An operand that is missing, told by the kind of the node that lacks it and by its name. -/
structure Gap where
  node : Kind
  operand : OperandName
deriving DecidableEq

/-- The outcome of a check that found some gaps: the first of them is reported. -/
def Gap.report : List Gap → Except FormulaError Unit
  | [] => .ok ()
  | gap :: _ => .error (.missingOperand gap.node gap.operand)

namespace Expr

/-! ## The gaps of a tree -/

mutual

/-- The gaps of a tree in reading order. -/
def gaps : Expr → List Gap
  | .chain op xs => gapsOfAll (.chain op) xs
  | .extremum _ xs => gapsOfPresent xs
  | .power a b => gapsOfOperand .power .base a ++ gapsOfOperand .power .exponent b
  | .exponential a => gapsOfOperand .exponential .power a
  | .logarithmic a b => gapsOfOperand .logarithmic .base a ++ gapsOfOperand .logarithmic .power b
  | .clamp a b c =>
    gapsOfOperand .clamp .value a ++ (gapsOfOperand .clamp .min b ++ gapsOfOperand .clamp .max c)
  | .constant _ | .euler | .coreStat _ | .derivedStat _ | .mastery => []

/-- The gaps of an operand that `node` cannot do without. One that is missing is a gap itself. -/
def gapsOfOperand (node : Kind) (operand : OperandName) : Option Expr → List Gap
  | none => [⟨node, operand⟩]
  | some e => gaps e

def gapsOfAll (node : Kind) : List (Option Expr) → List Gap
  | [] => []
  | x :: xs => gapsOfOperand node .value x ++ gapsOfAll node xs

/-- The gaps of the entries of a maximum or minimum. One that is absent is no gap. -/
def gapsOfPresent : List (Option Expr) → List Gap
  | [] => []
  | none :: xs => gapsOfPresent xs
  | some e :: xs => gaps e ++ gapsOfPresent xs

end

/-! ## Validation -/

/-- Two checks in a row report the first gap of both. -/
theorem report_append (gs hs : List Gap) :
    Gap.report (gs ++ hs) = Gap.report gs >>= fun _ => Gap.report hs := by
  cases gs <;> rfl

mutual

/-- **A tree is validated by reporting its first gap.** -/
theorem validate_eq_report : ∀ e : Expr, validate e = Gap.report (gaps e)
  | .constant _ | .euler | .coreStat _ | .derivedStat _ | .mastery => rfl
  | .chain op xs => by
    rw [validate, gaps, validateAll_eq_report]
  | .extremum side xs => by
    rw [validate, gaps, validatePresent_eq_report]
  | .power a b | .logarithmic a b => by
    rw [validate, gaps, report_append, validateOperand_eq_report, validateOperand_eq_report]
  | .exponential a => by
    rw [validate, gaps, validateOperand_eq_report]
  | .clamp a b c => by
    rw [validate, gaps, report_append, report_append, validateOperand_eq_report, validateOperand_eq_report,
      validateOperand_eq_report]

theorem validateOperand_eq_report (node : Kind) (operand : OperandName) : ∀ x : Option Expr,
    validateOperand node operand x = Gap.report (gapsOfOperand node operand x)
  | none => rfl
  | some e => by
    rw [validateOperand, gapsOfOperand, validate_eq_report e]

theorem validateAll_eq_report (node : Kind) : ∀ xs : List (Option Expr),
    validateAll node xs = Gap.report (gapsOfAll node xs)
  | [] => rfl
  | x :: xs => by
    rw [validateAll, gapsOfAll, report_append, validateOperand_eq_report, validateAll_eq_report node xs]

theorem validatePresent_eq_report : ∀ xs : List (Option Expr),
    validatePresent xs = Gap.report (gapsOfPresent xs)
  | [] => rfl
  | none :: xs => by
    rw [validatePresent, gapsOfPresent, validatePresent_eq_report xs]
  | some e :: xs => by
    rw [validatePresent, gapsOfPresent, report_append, validate_eq_report e, validatePresent_eq_report xs]

end

theorem report_eq_ok_iff {gs : List Gap} : Gap.report gs = .ok () ↔ gs = [] := by
  cases gs <;> simp [Gap.report]

/-! ## Trees without gaps -/

/-- What can be built with the constructors for nodes that take complete operands. Only a maximum or minimum may be
given entries that are absent. -/
inductive Buildable : Expr → Prop where
  | constant (value : Float) : Buildable (.constant value)
  | euler : Buildable .euler
  | chain (op : Operator) {values : List Expr} : (∀ e ∈ values, Buildable e) → Buildable (.chain op (values.map some))
  | extremum (side : Extremum) {entries : List (Option Expr)} :
    (∀ e, some e ∈ entries → Buildable e) → Buildable (.extremum side entries)
  | power {base exponent : Expr} : Buildable base → Buildable exponent → Buildable (.power (some base) (some exponent))
  | exponential {power : Expr} : Buildable power → Buildable (.exponential (some power))
  | logarithmic {base power : Expr} :
    Buildable base → Buildable power → Buildable (.logarithmic (some base) (some power))
  | clamp {value min max : Expr} :
    Buildable value → Buildable min → Buildable max → Buildable (.clamp (some value) (some min) (some max))
  | coreStat (stat : StatId) : Buildable (.coreStat stat)
  | derivedStat (stat : DerivedStat) : Buildable (.derivedStat stat)
  | mastery : Buildable .mastery

theorem gapsOfAll_eq_nil {node : Kind} {values : List Expr} (h : ∀ e ∈ values, gaps e = []) :
    gapsOfAll node (values.map some) = [] := by
  induction values with
  | nil => rfl
  | cons e values ih =>
    rw [List.map_cons, gapsOfAll, gapsOfOperand, h e List.mem_cons_self, List.nil_append]
    exact ih fun a ha => h a (List.mem_cons_of_mem e ha)

theorem gapsOfPresent_eq_nil {entries : List (Option Expr)} (h : ∀ e, some e ∈ entries → gaps e = []) :
    gapsOfPresent entries = [] := by
  induction entries with
  | nil => rfl
  | cons x entries ih =>
    have hrest := ih fun a ha => h a (List.mem_cons_of_mem x ha)
    cases x with
    | none => rw [gapsOfPresent, hrest]
    | some e => rw [gapsOfPresent, h e List.mem_cons_self, hrest, List.nil_append]

theorem Buildable.gaps_eq_nil {e : Expr} (h : Buildable e) : gaps e = [] := by
  induction h with
  | constant | euler | coreStat | derivedStat | mastery => rfl
  | chain op _ ih => rw [gaps, gapsOfAll_eq_nil ih]
  | extremum side _ ih => rw [gaps, gapsOfPresent_eq_nil ih]
  | power _ _ iha ihb | logarithmic _ _ iha ihb => simp [gaps, gapsOfOperand, iha, ihb]
  | exponential _ ih => simp [gaps, gapsOfOperand, ih]
  | clamp _ _ _ iha ihb ihc => simp [gaps, gapsOfOperand, iha, ihb, ihc]

mutual

theorem buildable_of_gaps : ∀ e : Expr, gaps e = [] → Buildable e
  | .constant x, _ => .constant x
  | .euler, _ => .euler
  | .coreStat stat, _ => .coreStat stat
  | .derivedStat stat, _ => .derivedStat stat
  | .mastery, _ => .mastery
  | .chain op xs, h => by
    rw [gaps] at h
    obtain ⟨values, rfl, hvalues⟩ := buildable_of_gapsOfAll xs h
    exact .chain op hvalues
  | .extremum side xs, h => by
    rw [gaps] at h
    exact .extremum side (buildable_of_gapsOfPresent xs h)
  | .power a b, h => by
    rw [gaps, List.append_eq_nil_iff] at h
    obtain ⟨a, rfl, ha⟩ := buildable_of_gapsOfOperand a h.1
    obtain ⟨b, rfl, hb⟩ := buildable_of_gapsOfOperand b h.2
    exact .power ha hb
  | .exponential a, h => by
    rw [gaps] at h
    obtain ⟨a, rfl, ha⟩ := buildable_of_gapsOfOperand a h
    exact .exponential ha
  | .logarithmic a b, h => by
    rw [gaps, List.append_eq_nil_iff] at h
    obtain ⟨a, rfl, ha⟩ := buildable_of_gapsOfOperand a h.1
    obtain ⟨b, rfl, hb⟩ := buildable_of_gapsOfOperand b h.2
    exact .logarithmic ha hb
  | .clamp a b c, h => by
    rw [gaps, List.append_eq_nil_iff, List.append_eq_nil_iff] at h
    obtain ⟨a, rfl, ha⟩ := buildable_of_gapsOfOperand a h.1
    obtain ⟨b, rfl, hb⟩ := buildable_of_gapsOfOperand b h.2.1
    obtain ⟨c, rfl, hc⟩ := buildable_of_gapsOfOperand c h.2.2
    exact .clamp ha hb hc

theorem buildable_of_gapsOfOperand {node : Kind} {operand : OperandName} : ∀ x : Option Expr,
    gapsOfOperand node operand x = [] → ∃ e, x = some e ∧ Buildable e
  | none, h => absurd h (List.cons_ne_nil _ _)
  | some e, h => ⟨e, rfl, buildable_of_gaps e h⟩

theorem buildable_of_gapsOfAll {node : Kind} : ∀ xs : List (Option Expr), gapsOfAll node xs = [] →
    ∃ values : List Expr, xs = values.map some ∧ ∀ e ∈ values, Buildable e
  | [], _ => ⟨[], rfl, by simp⟩
  | x :: xs, h => by
    rw [gapsOfAll, List.append_eq_nil_iff] at h
    obtain ⟨e, rfl, he⟩ := buildable_of_gapsOfOperand x h.1
    obtain ⟨values, rfl, hvalues⟩ := buildable_of_gapsOfAll xs h.2
    exact ⟨e :: values, rfl, List.forall_mem_cons.2 ⟨he, hvalues⟩⟩

theorem buildable_of_gapsOfPresent : ∀ xs : List (Option Expr), gapsOfPresent xs = [] →
    ∀ e, some e ∈ xs → Buildable e
  | [], _ => by simp
  | none :: xs, h => by
    rw [gapsOfPresent] at h
    simpa using buildable_of_gapsOfPresent xs h
  | some e :: xs, h => by
    rw [gapsOfPresent, List.append_eq_nil_iff] at h
    have he := buildable_of_gaps e h.1
    have hxs := buildable_of_gapsOfPresent xs h.2
    intro a ha
    rcases List.mem_cons.1 ha with heq | ha
    · obtain rfl := Option.some.inj heq
      exact he
    · exact hxs a ha

end

/-- **A tree has no gaps exactly if it can be built** from complete operands. -/
theorem gaps_eq_nil_iff {e : Expr} : gaps e = [] ↔ Buildable e :=
  ⟨buildable_of_gaps e, Buildable.gaps_eq_nil⟩

end Expr

/-! ## Formulas and libraries -/

/-- Checks in a row report the first gap of all. -/
theorem forM_eq_report {α : Type} {check : α → Except FormulaError Unit} {gaps : α → List Gap}
    (h : ∀ a, check a = Gap.report (gaps a)) (as : List α) : as.forM check = Gap.report (as.flatMap gaps) := by
  induction as with
  | nil => rfl
  | cons a as ih =>
    rw [List.flatMap_cons, Expr.report_append, ← h, ← ih]
    rfl

/-- The gaps of a formula, those of its expressions in their order. -/
def Formula.gaps (f : Formula) : List Gap :=
  f.expressions.flatMap Expr.gaps

theorem Formula.validate_eq_report (f : Formula) : f.validate = Gap.report f.gaps :=
  forM_eq_report Expr.validate_eq_report f.expressions

/-- The gaps of a library, those of its formulas in the order of their names. -/
def Library.gaps (l : Library) : List Gap :=
  (l.names.filterMap l.get?).flatMap Formula.gaps

theorem Library.validate_eq_report (l : Library) : l.validate = Gap.report l.gaps := by
  rw [Library.gaps, names, show l.get? = l.formulas.get? from rfl, ← Table.values_eq_filterMap]
  exact forM_eq_report Formula.validate_eq_report l.formulas.values

/-- **Validation reports the first gap in reading order**, and nothing else. A tree is valid exactly if it has no
gaps, which is to say that it can be built from complete operands. A formula reports the first gap of its expressions
in their order, and a library the first gap of its formulas in the order of their names. -/
theorem validate_reports_first_gap (e : Expr) (f : Formula) (l : Library) :
    e.validate = Gap.report e.gaps ∧
      (e.validate = .ok () ↔ e.gaps = []) ∧ (e.gaps = [] ↔ e.Buildable) ∧
      f.validate = Gap.report (f.expressions.flatMap Expr.gaps) ∧
      l.names.Pairwise Precedes ∧ l.validate = Gap.report ((l.names.filterMap l.get?).flatMap Formula.gaps) := by
  refine ⟨e.validate_eq_report, ?_, Expr.gaps_eq_nil_iff, f.validate_eq_report, l.formulas.keys_pairwise,
    l.validate_eq_report⟩
  rw [e.validate_eq_report, Expr.report_eq_ok_iff]

-- The gap inside the base comes before the exponent that is missing.
example : Expr.validate (.power (some (.exponential none)) none) = .error (.missingOperand .exponential .power) := rfl

end Formulary
