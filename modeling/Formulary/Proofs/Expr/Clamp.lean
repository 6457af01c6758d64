import Formulary.Proofs.Expr.Extremum
import Formulary.Proofs.Numeric.Clamp

/-!
# Clamps and their spelling

A clamp node and its spelling `max(min, min(value, max))` have the same number for their value
(`clamp_agrees_with_extremes`), whatever the operands are and whether or not they fail, unless the operand to be clamped
is a NaN. What else is known of clamps is shown there beside it.
-/

namespace Formulary.Expr
variable (ctx : Context)

theorem value_clamp (v low high : Expr) : (evaluate ctx (.clamp (some v) (some low) (some high))).value =
    Formulary.clamp (evaluate ctx v).value (evaluate ctx low).value (evaluate ctx high).value := by
  rw [evaluate_clamp]
  rfl

/-- A maximum or minimum of two entries picks one of their values. -/
theorem value_extremum_pair (side : Extremum) (a b : Expr) : (evaluate ctx (.extremum side [some a, some b])).value =
    side.pick (evaluate ctx a).value (evaluate ctx b).value := by
  rw [evaluate_extremum_eq]
  rfl

/-- **A clamp agrees with its spelling through maximum and minimum.** Unless the operand `v` is a NaN, they have the
same number for their value. With the bounds the wrong way round that is the lower bound, a bound that is a NaN does
not constrain, and neither do infinite bounds. With the bounds the right way round the value lies between them, it does
not change when it is clamped once more, and it grows with that of `v`. A NaN is kept unless the bounds are the wrong
way round. -/
theorem clamp_agrees_with_extremes (ctx : Context) (v low high : Expr) :
    let value := fun e => (evaluate ctx e).value
    let clamped := fun e => Expr.clamp (some e) (some low) (some high)
    let result := value (clamped v)
    ((value v).isNaN = false →
      SameNumber result (value (.extremum .max [some low, some (.extremum .min [some v, some high])])) ∧
      ((value low).isNaN = true → SameNumber result (value (.extremum .min [some v, some high]))) ∧
      ((value high).isNaN = true → SameNumber result (value (.extremum .max [some low, some v]))) ∧
      (value low ≤ value high → value low ≤ result ∧ result ≤ value high)) ∧
      (value high < value low → result = value low) ∧
      (value low = -Float.inf ∨ (value low).isNaN = true → value high = Float.inf ∨ (value high).isNaN = true →
        result = value v) ∧
      value (clamped (clamped v)) = result ∧
      (∀ w, value v ≤ value w → result ≤ value (clamped w)) ∧
      ((value v).isNaN = true → ¬ value high < value low → result.isNaN = true) := by
  intro value clamped result
  have hclamped (e : Expr) : value (clamped e) = Formulary.clamp (value e) (value low) (value high) :=
    value_clamp ctx e low high
  have hresult : result = Formulary.clamp (value v) (value low) (value high) := hclamped v
  have hpair (side : Extremum) (a b : Expr) : value (.extremum side [some a, some b]) = side.pick (value a) (value b) :=
    value_extremum_pair ctx side a b
  refine ⟨?_, ?_, ?_, ?_, ?_, ?_⟩
  · intro hv
    have hspelled := sameNumber_clamp hv (value low) (value high)
    refine ⟨?_, ?_, ?_, ?_⟩
    · rw [hresult, hpair, hpair]
      exact hspelled
    · intro hlow
      rw [hresult, hpair]
      rwa [show larger _ _ = _ from Extremum.pick_of_isNaN .max hlow] at hspelled
    · intro hhigh
      rw [hresult, hpair]
      rwa [show smaller _ _ = _ from Extremum.pick_of_isNaN_right .min hv hhigh] at hspelled
    · intro hbounds
      rw [hresult]
      exact clamp_within hv hbounds
  · intro hinverted
    rw [hresult]
    exact clamp_of_inverted _ hinverted
  · intro hlow hhigh
    rw [hresult]
    exact clamp_of_unconstrained hlow hhigh
  · rw [hclamped, hclamped, ← hresult, hresult]
    exact clamp_clamp _ _ _
  · intro w hw
    rw [hresult, hclamped]
    exact clamp_le_clamp hw _ _
  · intro hv hbounds
    rw [hresult, clamp_of_isNaN hv hbounds]
    exact hv

/-- A lower bound that fails, and so is zero, with an upper bound above it, one below it and one that is a NaN. -/
theorem clamp_agrees_with_extremes_failing :
    let value := fun e => (evaluate .empty e).value
    let low := Expr.chain .division [none]
    let clamp v high := Expr.clamp (some v) (some low) (some (.constant high))
    let spelled v high := Expr.extremum .max [some low, some (.extremum .min [some v, some (.constant high)])]
    SameNumber (value (clamp (.constant 5) 3)) (value (spelled (.constant 5) 3)) ∧
      (0 ≤ value (clamp (.constant 5) 3) ∧ value (clamp (.constant 5) 3) ≤ 3) ∧
      value (clamp (clamp (.constant 5) 3) 3) = value (clamp (.constant 5) 3) ∧
      value (clamp (.constant 5) 3) ≤ value (clamp (.constant 6) 3) ∧
      value (clamp (.constant 5) (-1)) = 0 ∧
      SameNumber (value (clamp (.constant 5) (0 / 0)))
        (value (.extremum .max [some low, some (.constant 5)])) ∧
      (value (clamp (.constant (0 / 0)) 3)).isNaN = true := by
  intro value low clamp spelled
  have hone : (5 : Float).isNaN = false := by decide +kernel
  obtain ⟨hagrees, -, -, hagain, hmono, -⟩ := clamp_agrees_with_extremes .empty (.constant 5) low (.constant 3)
  obtain ⟨hspelled, -, -, hwithin⟩ := hagrees hone
  obtain ⟨-, hinverted, -⟩ := clamp_agrees_with_extremes .empty (.constant 5) low (.constant (-1))
  obtain ⟨hunbounded, -⟩ := clamp_agrees_with_extremes .empty (.constant 5) low (.constant (0 / 0))
  obtain ⟨-, -, -, -, -, hnan⟩ := clamp_agrees_with_extremes .empty (.constant (0 / 0)) low (.constant 3)
  exact ⟨hspelled, hwithin (by decide +kernel), hagain, hmono (.constant 6) (by decide +kernel),
    hinverted (by decide +kernel), (hunbounded hone).2.2.1 (by decide +kernel),
    hnan (by decide +kernel) (by decide +kernel)⟩

end Formulary.Expr
