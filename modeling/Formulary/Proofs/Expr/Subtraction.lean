import Mathlib.Data.List.ReduceOption
import Formulary.Proofs.Expr.Chain
import Formulary.Proofs.Numeric.Opposites

/-!
# Subtraction is the negated sum

A difference and a sum of the same operands both start from zero, and each operand keeps the one the opposite of the
other, up to the sign of zero (`sameNumber_foldl_sub`). Neither refuses an operand, so both chains stop at the first gap
and nowhere else (`attempt_all`, `attempt_gap`). Hence `subtraction_is_negated_sum`.
-/

namespace Formulary

/-- Operands that are subtracted keep a difference the opposite of the sum. -/
theorem sameNumber_foldl_sub (values : List Float) {difference sum : Float} (h : SameNumber difference (-sum)) :
    SameNumber (values.foldl (· - ·) difference) (-values.foldl (· + ·) sum) := by
  induction values generalizing difference sum with
  | nil => exact h
  | cons v values ih =>
    have hdifference : SameNumber (difference - v) (-sum - v) := h.sub_left v
    have hopposite : SameNumber (-sum - v) (-(-(-sum) + v)) := sameNumber_sub (-sum) v
    have hsum : SameNumber (-(-(-sum) + v)) (-(sum + v)) := ((sameNumber_neg_neg sum).add_left v).neg
    exact ih (hdifference.trans (hopposite.trans hsum))

namespace Expr
variable {ctx : Context} {op : Operator}

/-! ## Chains that refuse nothing -/

/-- A list of slots has no gap, or a first one. -/
theorem exists_before_gap (xs : List (Option Expr)) :
    ∃ es : List Expr, xs = es.map some ∨ ∃ after, xs = es.map some ++ none :: after := by
  induction xs with
  | nil => exact ⟨[], .inl rfl⟩
  | cons x xs ih =>
    cases x with
    | none => exact ⟨[], .inr ⟨xs, rfl⟩⟩
    | some e =>
      obtain ⟨es, rfl | ⟨after, rfl⟩⟩ := ih
      · exact ⟨e :: es, .inl rfl⟩
      · exact ⟨e :: es, .inr ⟨after, rfl⟩⟩

/-- Without a gap all operands are joined. -/
theorem attempt_all (hop : ∀ x, op.refuses x = false) (es : List Expr) : attempt ctx (.chain op (es.map some)) =
    ⟨.ok ((es.map fun e => (evaluate ctx e).value).foldl op.join op.start),
      (es.map some).flatMap (slotEvents ctx)⟩ := by
  rw [attempt_through fun e _ => hop _, List.foldl_map]

/-- With a gap the chain fails, once the operands before the gap are evaluated. -/
theorem attempt_gap (hop : ∀ x, op.refuses x = false) (es : List Expr) (after : List (Option Expr)) :
    attempt ctx (.chain op (es.map some ++ none :: after)) =
      ⟨.error (.missingOperand (.chain op) .value), (es.map some).flatMap (slotEvents ctx)⟩ := by
  rw [attempt_stopped (fun e _ => hop _) rfl, List.flatMap_append]
  exact congrArg (Traced.mk _) (List.append_nil _)

theorem takeWhile_before_gap (es : List Expr) (after : List (Option Expr)) :
    (es.map some ++ none :: after).takeWhile Option.isSome = es.map some := by
  rw [List.takeWhile_append_of_pos (by simp), List.takeWhile_cons_of_neg (by simp), List.append_nil]

theorem takeWhile_all (es : List Expr) : (es.map some).takeWhile Option.isSome = es.map some :=
  List.takeWhile_eq_self_iff.2 (by simp)

theorem reduceOption_all (es : List Expr) : (es.map some).reduceOption = es := by
  simp [List.reduceOption]

theorem value_of_attempt_ok {e : Expr} {value : Float} {events : List Event}
    (h : attempt ctx e = ⟨.ok value, events⟩) : (evaluate ctx e).value = value := by
  rw [evaluate, h]
  rfl

theorem value_of_attempt_error {e : Expr} {error : FormulaError} {events : List Event}
    (h : attempt ctx e = ⟨.error error, events⟩) : (evaluate ctx e).value = 0 := by
  rw [evaluate, h]
  rfl

/-- **A subtraction is the negated sum of its operands.** It evaluates the same operands as the addition, those before
the first gap, which log the same. Both fail for want of an operand if there is a gap, and in no other way. Otherwise
the values of the operands are added to zero or subtracted from it one after the other, and what the subtraction comes
to is the opposite of what the addition does, up to the sign of zero. Where they fail both count as zero, and so this
holds of what they are evaluated to in either case. -/
theorem subtraction_is_negated_sum (ctx : Context) (xs : List (Option Expr)) :
    let sum := Expr.chain .addition xs
    let difference := Expr.chain .subtraction xs
    let operandEvents := (xs.takeWhile Option.isSome).flatMap (slotEvents ctx)
    let values := xs.reduceOption.map fun e => (evaluate ctx e).value
    (attempt ctx sum).events = operandEvents ∧
      (attempt ctx difference).events = operandEvents ∧
      (∀ error, (attempt ctx sum).value = .error error ↔
        none ∈ xs ∧ error = .missingOperand (.chain .addition) .value) ∧
      (∀ error, (attempt ctx difference).value = .error error ↔
        none ∈ xs ∧ error = .missingOperand (.chain .subtraction) .value) ∧
      (none ∉ xs → ∃ x y, (attempt ctx sum).value = .ok x ∧ (attempt ctx difference).value = .ok y ∧
        x = values.foldl (· + ·) 0 ∧ y = values.foldl (· - ·) 0 ∧ SameNumber y (-x)) ∧
      SameNumber (evaluate ctx difference).value (-(evaluate ctx sum).value) := by
  intro sum difference operandEvents values
  have hzero : SameNumber 0 (-0) := .inr (by decide +kernel)
  obtain ⟨es, rfl | ⟨after, rfl⟩⟩ := exists_before_gap xs
  · have hgap : none ∉ es.map some := by simp
    have hsum : attempt ctx sum = _ := attempt_all (fun _ => rfl) es
    have hdifference : attempt ctx difference = _ := attempt_all (fun _ => rfl) es
    have hopposite := sameNumber_foldl_sub (es.map fun e => (evaluate ctx e).value) hzero
    have hevents : operandEvents = (es.map some).flatMap (slotEvents ctx) :=
      congrArg (List.flatMap (slotEvents ctx)) (takeWhile_all es)
    have hvalues : values = es.map fun e => (evaluate ctx e).value := by rw [← reduceOption_all es]
    rw [hsum, hdifference, hevents, hvalues, value_of_attempt_ok hsum, value_of_attempt_ok hdifference]
    refine ⟨rfl, rfl, ?_, ?_, fun _ => ⟨_, _, rfl, rfl, rfl, rfl, hopposite⟩, hopposite⟩
    · intro error
      exact ⟨nofun, fun h => absurd h.1 hgap⟩
    · intro error
      exact ⟨nofun, fun h => absurd h.1 hgap⟩
  · have hgap : none ∈ es.map some ++ none :: after := by simp
    have hsum : attempt ctx sum = _ := attempt_gap (fun _ => rfl) es after
    have hdifference : attempt ctx difference = _ := attempt_gap (fun _ => rfl) es after
    have hevents : operandEvents = (es.map some).flatMap (slotEvents ctx) :=
      congrArg (List.flatMap (slotEvents ctx)) (takeWhile_before_gap es after)
    rw [hsum, hdifference, hevents, value_of_attempt_error hsum, value_of_attempt_error hdifference]
    refine ⟨rfl, rfl, ?_, ?_, fun h => absurd hgap h, hzero⟩
    · intro error
      rw [Except.error.injEq, eq_comm]
      exact (and_iff_right hgap).symm
    · intro error
      rw [Except.error.injEq, eq_comm]
      exact (and_iff_right hgap).symm

/-- Operands of which the second fails, and so is zero. -/
def ledger : List (Option Expr) :=
  [some (.constant 4), some (.chain .division [none]), some (.constant (-1))]

theorem subtraction_is_negated_sum_ledger :
    SameNumber (evaluate .empty (.chain .subtraction ledger)).value
        (-(evaluate .empty (.chain .addition ledger)).value) ∧
      (attempt .empty (.chain .addition ledger)).value = .ok 3 ∧
      (attempt .empty (.chain .subtraction ledger)).value = .ok (-3) ∧
      (attempt .empty (.chain .subtraction (ledger ++ [none]))).value =
        .error (.missingOperand (.chain .subtraction) .value) ∧
      (attempt .empty (.chain .subtraction (none :: ledger))).events = [] ∧
      SameNumber (evaluate .empty (.chain .subtraction (none :: ledger))).value
        (-(evaluate .empty (.chain .addition (none :: ledger))).value) := by
  obtain ⟨-, -, -, -, hpresent, hopposite⟩ := subtraction_is_negated_sum .empty ledger
  obtain ⟨-, -, -, hfails, -⟩ := subtraction_is_negated_sum .empty (ledger ++ [none])
  obtain ⟨-, hevents, -, -, -, hzero⟩ := subtraction_is_negated_sum .empty (none :: ledger)
  obtain ⟨x, y, hx, hy, hsum, hdifference, -⟩ := hpresent (by simp [ledger])
  have hthree : x = 3 := hsum.trans (by decide +kernel)
  have hminus : y = -3 := hdifference.trans (by decide +kernel)
  exact ⟨hopposite, hthree ▸ hx, hminus ▸ hy, (hfails _).2 ⟨by simp, rfl⟩, hevents, hzero⟩

end Expr

end Formulary
