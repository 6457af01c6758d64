import Formulary.Formula

/-!
# Breakdowns of formulas

A formula can be evaluated plainly or with a breakdown, by two loops of their own, which stay in step
(`value_runDetailed`, `events_runDetailed`). Of the expressions only the last one counts (`breakdown_agrees`).
-/

namespace Formulary

/-- The value that steps come to: that of the last one, zero without any. -/
def Evaluation.outcome (steps : List (String × Float)) : Float :=
  (steps.getLast?.map (·.2)).getD 0

namespace Formula
variable (ctx : Context)

/-- An expression as a step: its text and its value. -/
def step (e : Expr) : String × Float :=
  (e.display, (e.evaluate ctx).value)

/-! ## The two loops -/

/-- The value so far gives way to that of the last expression. -/
theorem value_run (last : Float) (es : List Expr) :
    (run ctx last es).value = (es.getLast?.map fun e => (e.evaluate ctx).value).getD last := by
  induction es generalizing last with
  | nil => rfl
  | cons e es ih =>
    rw [run, Traced.value_bind, ih, List.getLast?_cons]
    cases es.getLast? <;> rfl

theorem events_run (last : Float) (es : List Expr) :
    (run ctx last es).events = es.flatMap fun e => (e.evaluate ctx).events := by
  induction es generalizing last with
  | nil => rfl
  | cons e es ih => rw [run, Traced.events_bind, ih, List.flatMap_cons]

/-- A breakdown ends with the value of the plain run, and one more step for each expression. -/
theorem value_runDetailed (evaluation : Evaluation) (es : List Expr) :
    (runDetailed ctx evaluation es).value =
      { evaluation with
        value := (run ctx evaluation.value es).value
        steps := evaluation.steps ++ es.map (step ctx) } := by
  induction es generalizing evaluation with
  | nil => simp [runDetailed, run]
  | cons e es ih =>
    rw [runDetailed, Traced.value_bind, ih]
    simp [Evaluation.push, run, step]

/-- Keeping the steps logs nothing. -/
theorem events_runDetailed (evaluation : Evaluation) (es : List Expr) :
    (runDetailed ctx evaluation es).events = (run ctx evaluation.value es).events := by
  induction es generalizing evaluation with
  | nil => rfl
  | cons e es ih =>
    rw [runDetailed, run, Traced.events_bind, Traced.events_bind, ih]
    rfl

/-! ## Formulas -/

variable (f : Formula)

theorem value_evaluate : (f.evaluate ctx).value = (run ctx 0 f.expressions).value := rfl

theorem events_evaluate :
    (f.evaluate ctx).events =
      (run ctx 0 f.expressions).events ++ [.formulaEvaluated f.name (f.evaluate ctx).value] := by
  simp [evaluate, Traced.log]

theorem value_evaluateDetailed :
    (f.evaluateDetailed ctx).value = ⟨f.name, (f.evaluate ctx).value, f.expressions.map (step ctx)⟩ := by
  rw [evaluateDetailed, value_runDetailed, value_evaluate, List.nil_append]

theorem value_evaluate_of_last {f : Formula} {earlier : List Expr} {last : Expr}
    (h : f.expressions = earlier ++ [last]) : (f.evaluate ctx).value = (last.evaluate ctx).value := by
  rw [value_evaluate, value_run, h, List.getLast?_concat]
  rfl

theorem value_evaluate_eq_outcome :
    (f.evaluate ctx).value = Evaluation.outcome (f.expressions.map (step ctx)) := by
  rw [value_evaluate, value_run, Evaluation.outcome, List.getLast?_map, Option.map_map]
  rfl

/-- **Plain evaluation and breakdown agree.** The breakdown has the value of the plain evaluation and, in order, the
text and the value of every expression; its value is that of its last step, zero without steps. Its events are those of
the expressions, one after the other, and the plain evaluation logs them too and then the outcome. The expressions
before the last one have no part in the value: with any others in their place both evaluations give the same. -/
theorem breakdown_agrees (f : Formula) (ctx : Context) :
    let plain := f.evaluate ctx
    let detailed := f.evaluateDetailed ctx
    detailed.value.value = plain.value ∧
      detailed.value.formula = f.name ∧
      detailed.value.steps = f.expressions.map (fun e => (e.display, (e.evaluate ctx).value)) ∧
      detailed.value.value = Evaluation.outcome detailed.value.steps ∧
      detailed.events = f.expressions.flatMap (fun e => (e.evaluate ctx).events) ∧
      (∃ event, plain.events = detailed.events ++ [event] ∧ event.level = .trace ∧
        event.message = "formula evaluated" ∧
        event.fields = [("formula", .text f.name), ("value", .number plain.value)]) ∧
      ∀ earlier last, f.expressions = earlier ++ [last] → ∀ others : List Expr,
        let changed := { f with expressions := others ++ [last] }
        (changed.evaluate ctx).value = plain.value ∧
          (changed.evaluateDetailed ctx).value.value = detailed.value.value := by
  intro plain detailed
  have hvalue : detailed.value = ⟨f.name, plain.value, f.expressions.map (step ctx)⟩ := value_evaluateDetailed ctx f
  have hevents : detailed.events = (run ctx 0 f.expressions).events := events_runDetailed ctx _ _
  refine ⟨by rw [hvalue], by rw [hvalue], by rw [hvalue]; rfl, ?_, ?_, ?_, ?_⟩
  · rw [hvalue]
    exact value_evaluate_eq_outcome ctx f
  · rw [hevents, events_run]
  · refine ⟨.formulaEvaluated f.name plain.value, ?_, rfl, rfl, rfl⟩
    rw [hevents]
    exact events_evaluate ctx f
  · intro earlier last hlast others changed
    have hchanged : (changed.evaluate ctx).value = plain.value := by
      rw [value_evaluate_of_last ctx (f := changed) rfl, ← value_evaluate_of_last ctx hlast]
    refine ⟨hchanged, ?_⟩
    rw [value_evaluateDetailed, hvalue]
    exact hchanged

/-- A formula whose last expression divides by zero. -/
def overwritten : Formula :=
  ⟨"overwritten", [.constant 9, .chain .division [some (.constant 0)]]⟩

theorem breakdown_agrees_overwritten :
    (overwritten.evaluateDetailed .empty).value.value = (overwritten.evaluate .empty).value ∧
      (Formula.evaluate { overwritten with expressions := [.chain .division [some (.constant 0)]] } .empty).value =
        (overwritten.evaluate .empty).value ∧
      (overwritten.evaluate .empty).value = 0 := by
  obtain ⟨hvalue, -, -, -, -, -, hchanged⟩ := breakdown_agrees overwritten .empty
  exact ⟨hvalue, (hchanged [.constant 9] _ rfl []).1, rfl⟩

end Formula

end Formulary
