import Formulary.Proofs.Expr.Chain
import Formulary.Proofs.Expr.Failures
import Formulary.Proofs.Expr.Surroundings

/-!
# Derived stats from end to end

If some modifier would divide by a term close to zero, the whole stat is zero (`evaluate_of_zeroDivision`); else it is
the left fold of the terms (`evaluate_of_none`). The character adds its adjustment to either, and the look-up succeeds
with either (`derivedStat_end_to_end`).
-/

namespace Formulary

/-! ## Modifiers -/

namespace Modifier
variable {stats : StatId → Option Int32} {modifiers : List Modifier}

/-- Whether a modifier divides by a term that is close to zero. -/
def dividesByZero (stats : StatId → Option Int32) (m : Modifier) : Bool :=
  m.op.refuses (m.term stats)

/-- One modifier joins its term to the value, unless it divides by zero. -/
theorem applyAll_cons (m : Modifier) (rest : List Modifier) (value : Float) :
    applyAll stats value (m :: rest) =
      if m.dividesByZero stats then .error m else applyAll stats (m.op.join value (m.term stats)) rest := by
  rw [applyAll, Operator.apply?_eq, dividesByZero]
  by_cases hm : m.op.refuses (m.term stats) = true
  · simp [hm]
  · simp [hm]

/-- The first modifier that divides by zero decides. -/
theorem applyAll_of_some {m : Modifier} (h : modifiers.find? (dividesByZero stats) = some m) (value : Float) :
    applyAll stats value modifiers = .error m := by
  induction modifiers generalizing value with
  | nil => cases h
  | cons first rest ih =>
    by_cases hfirst : first.dividesByZero stats = true
    · rw [List.find?_cons_of_pos hfirst] at h
      obtain rfl := Option.some.inj h
      rw [applyAll_cons, if_pos hfirst]
    · rw [List.find?_cons_of_neg hfirst] at h
      rw [applyAll_cons, if_neg hfirst]
      exact ih h _

/-- Without such a modifier the terms are joined from left to right, each by its own operator. -/
theorem applyAll_of_none (h : modifiers.find? (dividesByZero stats) = none) (value : Float) :
    applyAll stats value modifiers = .ok (modifiers.foldl (fun acc m => m.op.join acc (m.term stats)) value) := by
  induction modifiers generalizing value with
  | nil => rfl
  | cons first rest ih =>
    obtain ⟨hfirst, hrest⟩ := List.forall_mem_cons.1 (List.find?_eq_none.1 h)
    rw [applyAll_cons, if_neg hfirst]
    exact ih (List.find?_eq_none.2 hrest) _

end Modifier

namespace DerivedStat

/-- The first modifier of a derived stat that divides by zero. -/
def zeroDivision? (d : DerivedStat) (stats : StatId → Option Int32) : Option Modifier :=
  d.modifiers.find? (Modifier.dividesByZero stats)

variable {d : DerivedStat} {stats : StatId → Option Int32}

theorem evaluate_of_zeroDivision {m : Modifier} (h : d.zeroDivision? stats = some m) :
    d.evaluate stats = ⟨0, [.statDividedByZero d.id m.stat]⟩ := by
  rw [evaluate, Modifier.applyAll_of_some h]
  rfl

theorem evaluate_of_none (h : d.zeroDivision? stats = none) :
    d.evaluate stats = pure (d.modifiers.foldl (fun acc m => m.op.join acc (m.term stats)) 0) := by
  rw [evaluate, Modifier.applyAll_of_none h]

end DerivedStat

theorem Context.derivedStat_of_character {ctx : Context} {c : Character} (h : ctx.character = some c.sheet)
    (d : DerivedStat) : ctx.derivedStat d = c.derivedStat d := by
  rw [derivedStat, h]
  rfl

/-- **Derived stats from end to end.** If some modifier divides by a term close to zero, the stat is exactly zero, and
one error in the log names it and the core stat of the first such modifier. Otherwise nothing is logged, and the value
is that of the terms, joined from left to right to zero. Either way the character adds what it stores for the stat, if
anything, and the look-up of the stat succeeds with that sum and logs no failure. So in whatever tree the look-up
stands, it can be exchanged for anything else of the same value, such as a stat that came to it without dividing by
zero. -/
theorem derivedStat_end_to_end (d : DerivedStat) (c : Character) {ctx : Context} (hctx : ctx.character = some c.sheet) :
    let stats := c.data.coreStat?
    let own := d.evaluate stats
    let total := c.derivedStat d
    (∀ m, d.zeroDivision? stats = some m →
      own.value = 0 ∧ ∃ event, own.events = [event] ∧ event.level = .error ∧
        event.message = "division by zero while computing derived stat" ∧
        event.fields = [("derived_stat", .text d.id.name), ("stat", .text m.stat.name)]) ∧
      (d.zeroDivision? stats = none →
        own.value = d.modifiers.foldl (fun acc m => m.op.join acc (m.term stats)) 0 ∧ own.events = []) ∧
      total.value = own.value + wholeValue ((c.data.adjustments.get? d.id).getD 0) ∧
      total.events = own.events ∧
      Expr.attempt ctx (.derivedStat d) = .ok <$> total ∧
      Expr.evaluate ctx (.derivedStat d) = total ∧
      (Expr.evaluate ctx (.derivedStat d)).failures = [] ∧
      ∀ frames e, (Expr.evaluate ctx e).value = total.value →
        Expr.Interchangeable ctx frames (.derivedStat d) e := by
  intro stats own total
  have hlookup : ctx.derivedStat d = total := Context.derivedStat_of_character hctx d
  have hevaluate : Expr.evaluate ctx (.derivedStat d) = total := by rw [Expr.evaluate_derivedStat, hlookup]
  refine ⟨?_, ?_, rfl, Traced.events_map _ _, ?_, hevaluate, ?_, ?_⟩
  · intro m hm
    have hown : own = _ := DerivedStat.evaluate_of_zeroDivision hm
    rw [hown]
    exact ⟨rfl, .statDividedByZero d.id m.stat, rfl, rfl, rfl, rfl⟩
  · intro hnone
    have hown : own = _ := DerivedStat.evaluate_of_none hnone
    rw [hown]
    exact ⟨rfl, rfl⟩
  · rw [Expr.attempt, hlookup]
  · rw [hevaluate, ← hlookup]
    exact Traced.failures_derivedStat ctx d
  · intro frames e he
    refine Expr.interchangeable_of_value ?_ frames
    rw [hevaluate, he]

/-- A hero of some strength, and with nothing said of luck. -/
def luckless : Character :=
  { data := .ofLists "hero" [(⟨"STR"⟩, 7)] [(⟨"HP"⟩, 5)] }

/-- Health that comes of strength, is divided by luck and then by nothing at all. -/
def fortune : DerivedStat :=
  ⟨⟨"HP"⟩, [⟨⟨"STR"⟩, 2, .addition⟩, ⟨⟨"LUCK"⟩, 1, .division⟩, ⟨⟨"STR"⟩, 0, .division⟩]⟩

/-- The luck is at fault, and the health is that of a stat without modifiers. -/
theorem derivedStat_end_to_end_luckless :
    (fortune.evaluate luckless.data.coreStat?).value = 0 ∧
      (∃ event, (fortune.evaluate luckless.data.coreStat?).events = [event] ∧
        event.fields = [("derived_stat", .text "HP"), ("stat", .text "LUCK")]) ∧
      (luckless.derivedStat fortune).value = 5 ∧
      Expr.Interchangeable { character := some luckless.sheet } [.exponential] (.derivedStat fortune)
        (.derivedStat ⟨⟨"HP"⟩, []⟩) ∧
      (DerivedStat.evaluate ⟨⟨"HP"⟩, [⟨⟨"STR"⟩, 2, .addition⟩]⟩ luckless.data.coreStat?).value = 14 := by
  obtain ⟨hzero, -, htotal, -, -, -, -, hexchange⟩ :=
    @derivedStat_end_to_end fortune luckless { character := some luckless.sheet } rfl
  obtain ⟨-, hjoined, -⟩ :=
    @derivedStat_end_to_end ⟨⟨"HP"⟩, [⟨⟨"STR"⟩, 2, .addition⟩]⟩ luckless { character := some luckless.sheet } rfl
  obtain ⟨hown, event, hevent, -, -, hfields⟩ := hzero ⟨⟨"LUCK"⟩, 1, .division⟩ (by decide +kernel)
  refine ⟨hown, ⟨event, hevent, hfields⟩, ?_, hexchange [.exponential] _ (by decide +kernel), ?_⟩
  · rw [htotal, hown]
    decide +kernel
  · rw [(hjoined (by decide +kernel)).1]
    decide +kernel

end Formulary
