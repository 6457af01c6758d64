import Formulary.Proofs.Character.DerivedStats
import Formulary.Proofs.Numeric.Closeness

/-!
# Divisors that count as zero

A divisor counts as zero if it is finite and its magnitude is less than `2 ^ -49` (`Vanishes`). Divisions stop at the
first such operand (`attempt_division_eq_error_iff`), and in derived stats only zero is one
(`Modifier.dividesByZero_iff`). All of this is put together in `zero_guard_exact`.
-/

namespace Formulary

/-- A finite double whose magnitude is less than `2 ^ -49`. -/
def Vanishes (x : Float) : Prop :=
  x.isFinite = true ∧ |exactValue x| < 2 ^ (-49 : Int)

theorem refuses_division_iff {x : Float} : Operator.division.refuses x = true ↔ Vanishes x :=
  approximately_zero x

theorem refuses_division_eq_false_iff {x : Float} : Operator.division.refuses x = false ↔ ¬ Vanishes x := by
  rw [← refuses_division_iff, Bool.not_eq_true]

/-! ## Derived stats -/

/-- A modifier divides by zero if it divides, and its term is a product of which a factor is zero. -/
theorem Modifier.dividesByZero_iff (stats : StatId → Option Int32) (m : Modifier) : m.dividesByZero stats = true ↔
    m.op = .division ∧ ((stats m.stat).getD 0 = 0 ∨ m.weight = 0) := by
  rw [← approximately_zero_product, dividesByZero]
  cases m.op with
  | division => exact (and_iff_right rfl).symm
  | addition | subtraction | multiplication => simp [Operator.refuses]

/-- A derived stat reports a division by zero if one of its modifiers divides by such a product. -/
theorem DerivedStat.events_evaluate_ne_nil_iff (d : DerivedStat) (stats : StatId → Option Int32) :
    (d.evaluate stats).events ≠ [] ↔
      ∃ m ∈ d.modifiers, m.op = .division ∧ ((stats m.stat).getD 0 = 0 ∨ m.weight = 0) := by
  simp only [← Modifier.dividesByZero_iff]
  cases h : d.zeroDivision? stats with
  | none =>
    rw [evaluate_of_none h]
    refine iff_of_false (fun h => h rfl) ?_
    rintro ⟨m, hm, hzero⟩
    exact List.find?_eq_none.1 h m hm hzero
  | some m =>
    rw [evaluate_of_zeroDivision h]
    exact iff_of_true (List.cons_ne_nil _ _) ⟨m, List.mem_of_find?_eq_some h, List.find?_some h⟩

namespace Expr
variable {ctx : Context} {es : List Expr} {xs : List (Option Expr)}

/-! ## Divisions -/

/-- Every list of divisors begins with those that do not vanish, and the next slot, if any, is empty or holds one that
does. -/
theorem exists_before_vanishing (ctx : Context) (xs : List (Option Expr)) :
    ∃ es : List Expr, (∀ e ∈ es, ¬ Vanishes (evaluate ctx e).value) ∧
      (xs = es.map some ∨ (∃ after, xs = es.map some ++ none :: after) ∨
        ∃ e after, xs = es.map some ++ some e :: after ∧ Vanishes (evaluate ctx e).value) := by
  obtain ⟨es, rest, rfl, hes, hrest⟩ := exists_through ctx .division xs
  refine ⟨es, fun e he => refuses_division_eq_false_iff.1 (hes e he), ?_⟩
  cases rest with
  | nil => exact .inl (List.append_nil _)
  | cons x after =>
    cases x with
    | none => exact .inr (.inl ⟨after, rfl⟩)
    | some e => exact .inr (.inr ⟨e, after, rfl, refuses_division_iff.1 (hrest _ rfl)⟩)

section
variable (hes : ∀ e ∈ es, ¬ Vanishes (evaluate ctx e).value)
include hes

theorem value_division_all : (attempt ctx (.chain .division (es.map some))).value =
    .ok ((es.map fun e => (evaluate ctx e).value).foldl (· / ·) 1) := by
  rw [attempt_through fun e he => refuses_division_eq_false_iff.2 (hes e he), List.foldl_map]
  rfl

theorem value_division_gap (after : List (Option Expr)) :
    (attempt ctx (.chain .division (es.map some ++ none :: after))).value =
      .error (.missingOperand (.chain .division) .value) := by
  rw [attempt_stopped (fun e he => refuses_division_eq_false_iff.2 (hes e he)) rfl]
  rfl

theorem value_division_vanishing {e : Expr} (h : Vanishes (evaluate ctx e).value) (after : List (Option Expr)) :
    (attempt ctx (.chain .division (es.map some ++ some e :: after))).value = .error (.divisionByZero es.length) := by
  have hstop : stopsAt ctx .division (some e) = true := refuses_division_iff.2 h
  rw [attempt_stopped (fun e he => refuses_division_eq_false_iff.2 (hes e he)) hstop]
  rfl

end

/-- A division has a value if it has all its divisors and none of them vanishes. -/
theorem attempt_division_eq_ok_iff {value : Float} : (attempt ctx (.chain .division xs)).value = .ok value ↔
    ∃ es : List Expr, xs = es.map some ∧ (∀ e ∈ es, ¬ Vanishes (evaluate ctx e).value) ∧
      value = (es.map fun e => (evaluate ctx e).value).foldl (· / ·) 1 := by
  constructor
  · intro h
    obtain ⟨es, hes, rfl | ⟨after, rfl⟩ | ⟨e, after, rfl, he⟩⟩ := exists_before_vanishing ctx xs
    · rw [value_division_all hes] at h
      exact ⟨es, rfl, hes, (Except.ok.inj h).symm⟩
    · rw [value_division_gap hes] at h
      cases h
    · rw [value_division_vanishing hes he] at h
      cases h
  · rintro ⟨es, rfl, hes, rfl⟩
    exact value_division_all hes

/-- A division reports a divisor if it is the first one that vanishes, and no slot before it is empty. -/
theorem attempt_division_eq_error_iff {k : Nat} :
    (attempt ctx (.chain .division xs)).value = .error (.divisionByZero k) ↔
      ∃ (es : List Expr) (e : Expr) (after : List (Option Expr)), xs = es.map some ++ some e :: after ∧ es.length = k ∧
        (∀ e ∈ es, ¬ Vanishes (evaluate ctx e).value) ∧ Vanishes (evaluate ctx e).value := by
  constructor
  · intro h
    obtain ⟨es, hes, rfl | ⟨after, rfl⟩ | ⟨e, after, rfl, he⟩⟩ := exists_before_vanishing ctx xs
    · rw [value_division_all hes] at h
      cases h
    · rw [value_division_gap hes] at h
      cases h
    · rw [value_division_vanishing hes he] at h
      exact ⟨es, e, after, rfl, FormulaError.divisionByZero.inj (Except.error.inj h), hes, he⟩
  · rintro ⟨es, e, after, rfl, rfl, hes, he⟩
    exact value_division_vanishing hes he after

end Expr

/-! ## The guard -/

/-- **The guard against division by zero is exact.** In exact arithmetic a number is close to zero if its magnitude is
less than `2 ^ -49`, and closeness is symmetric. The same holds of doubles, with all roundings, where infinities and NaN
are not close to zero. Hence a division fails at a divisor if that is the first one of such a magnitude, and it has a
value only if it divides by none. The product of two whole numbers is close to zero only if one of them is zero, and so
a derived stat reports a division by zero only for a modifier that divides by such a product. -/
theorem zero_guard_exact :
    (∀ a b : ℚ, approximately a b = true ↔ |b - a| < max (1 / 10 ^ 6 * max |a| |b|) (8 * 2 ^ (-52 : Int))) ∧
      (∀ d : ℚ, approximately d 0 = true ↔ |d| < 2 ^ (-49 : Int)) ∧
      (∀ a b : ℚ, approximately a b = approximately b a) ∧
      (∀ x : Float, approximately x 0 = true ↔ x.isFinite = true ∧ |exactValue x| < 2 ^ (-49 : Int)) ∧
      (∀ a b : Float, approximately a b = approximately b a) ∧
      (∀ base weight : Int32,
        exactValue (wholeValue base) = base.toInt ∧ exactValue (wholeValue weight) = weight.toInt ∧
          (approximately (wholeValue base * wholeValue weight) 0 = true ↔ base = 0 ∨ weight = 0) ∧
          (approximately ((base.toInt * weight.toInt : Int) : ℚ) 0 = true ↔ base = 0 ∨ weight = 0)) ∧
      (∀ (d : DerivedStat) (stats : StatId → Option Int32), (d.evaluate stats).events ≠ [] ↔
        ∃ m ∈ d.modifiers, m.op = .division ∧ ((stats m.stat).getD 0 = 0 ∨ m.weight = 0)) ∧
      ∀ (ctx : Context) (xs : List (Option Expr)),
        let division := (Expr.attempt ctx (.chain .division xs)).value
        let divisor := fun e => (Expr.evaluate ctx e).value
        (∀ value, division = .ok value ↔ ∃ es : List Expr, xs = es.map some ∧
          (∀ e ∈ es, ¬ Vanishes (divisor e)) ∧ value = (es.map divisor).foldl (· / ·) 1) ∧
        ∀ k, division = .error (.divisionByZero k) ↔
          ∃ (es : List Expr) (e : Expr) (after : List (Option Expr)), xs = es.map some ++ some e :: after ∧
            es.length = k ∧ (∀ e ∈ es, ¬ Vanishes (divisor e)) ∧ Vanishes (divisor e) := by
  refine ⟨approximately_rat, approximately_zero_rat, approximately_comm_rat, approximately_zero, approximately_comm, ?_,
    DerivedStat.events_evaluate_ne_nil_iff, ?_⟩
  · intro base weight
    refine ⟨(exactValue_wholeValue base).2, (exactValue_wholeValue weight).2,
      approximately_zero_product base weight, ?_⟩
    rw [approximately_zero_int, mul_eq_zero, toInt_eq_zero_iff, toInt_eq_zero_iff]
  · intro ctx xs division divisor
    exact ⟨fun value => Expr.attempt_division_eq_ok_iff, fun k => Expr.attempt_division_eq_error_iff⟩

end Formulary
