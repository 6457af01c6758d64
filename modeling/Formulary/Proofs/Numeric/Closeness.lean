import Formulary.Proofs.Numeric.Clamp
import Formulary.Proofs.Numeric.Magnitudes

/-!
# Closeness to zero

The distance that is allowed as a part of the magnitude is a millionth of it, so next to zero it is never the one that
decides: a value is close to zero if its magnitude is less than `2 ^ -49`. That holds of rational numbers, where nothing
is rounded (`approximately_zero_rat`), and of doubles (`approximately_zero`, `approximately_zero_product`).
-/

namespace Formulary

open Float.Model (Format UnpackedFloat)
open Float.Model.UnpackedFloat

/-! ## Rational numbers -/

/-- Closeness without rounding. -/
instance : Closeness ℚ where
  abs := abs
  larger := max
  less := fun a b => a < b
  relative := 1 / 10 ^ 6
  absolute := 8 * 2 ^ (-52 : Int)

theorem approximately_rat (a b : ℚ) :
    approximately a b = true ↔ |b - a| < max (1 / 10 ^ 6 * max |a| |b|) (8 * 2 ^ (-52 : Int)) :=
  decide_eq_true_iff

theorem approximately_comm_rat (a b : ℚ) : approximately a b = approximately b a := by
  rw [Bool.eq_iff_iff, approximately_rat, approximately_rat, abs_sub_comm, max_comm |a|]

/-- **A rational number is close to zero if its magnitude is less than `2 ^ -49`.** -/
theorem approximately_zero_rat (d : ℚ) : approximately d 0 = true ↔ |d| < 2 ^ (-49 : Int) := by
  have habsolute : (8 * 2 ^ (-52 : Int) : ℚ) = 2 ^ (-49 : Int) := by norm_num
  have hrelative : ¬ |d| < 1 / 10 ^ 6 * |d| := by
    have := abs_nonneg d
    rw [not_lt]
    linarith
  rw [approximately_rat, zero_sub, abs_neg, abs_zero, max_eq_left (abs_nonneg d), lt_max_iff, habsolute]
  exact or_iff_right hrelative

/-- A whole number is close to zero only if it is zero. -/
theorem approximately_zero_int (n : Int) : approximately (n : ℚ) 0 = true ↔ n = 0 := by
  rw [approximately_zero_rat]
  constructor
  · intro hsmall
    by_contra hn
    have hlarge : (1 : ℚ) ≤ |(n : ℚ)| := by exact_mod_cast Int.one_le_abs hn
    have := hlarge.trans_lt hsmall
    norm_num at this
  · rintro rfl
    norm_num

/-! ## The constants of closeness -/

/-- The distance that is close whatever the magnitudes. -/
theorem exactValue_absolute :
    (Closeness.absolute : Float).isFinite = true ∧ exactValue (Closeness.absolute : Float) = 2 ^ (-49 : Int) := by
  have hbits : (Closeness.absolute : Float).toBits = 0x3CE0000000000000 := by decide +kernel
  obtain ⟨hfinite, hvalue⟩ := exactValue_of_unpack (m := 2 ^ 52) (e := -101) ((unpack_of_toBits hbits).trans rfl)
  refine ⟨hfinite, hvalue.trans ?_⟩
  norm_num

/-- The double that stands for a millionth is not negative, and not more than one. -/
theorem exactValue_relative : (Closeness.relative : Float).isFinite = true ∧
    0 ≤ exactValue (Closeness.relative : Float) ∧ exactValue (Closeness.relative : Float) ≤ 1 := by
  have hbits : (Closeness.relative : Float).toBits = 0x3EB0C6F7A0B5ED8D := by decide +kernel
  obtain ⟨hfinite, hvalue⟩ :=
    exactValue_of_unpack (m := 4722366482869645) (e := -72) ((unpack_of_toBits hbits).trans rfl)
  rw [hvalue]
  refine ⟨hfinite, ?_, ?_⟩ <;> norm_num

/-- A millionth of a magnitude, rounded, is not more than the magnitude. -/
theorem relative_mul_le {x : Float} (hx : x.isFinite = true) :
    Closeness.relative * Float.abs x ≤ Float.abs x := by
  obtain ⟨hrelative, hpos, hone⟩ := exactValue_relative
  have hfinite : (Float.abs x).isFinite = true := (isFinite_abs x).trans hx
  have hproduct : |exactValue (Closeness.relative : Float) * exactValue (Float.abs x)| ≤
      |exactValue (Float.abs x)| := by
    rw [abs_mul, abs_of_nonneg hpos]
    exact mul_le_of_le_one_left (abs_nonneg _) hone
  obtain ⟨hfinite', hle⟩ := product_le hrelative hfinite hfinite hproduct
  rw [le_iff_exactValue hfinite' hfinite]
  refine (le_abs_self _).trans (hle.trans_eq ?_)
  rw [exactValue_abs, abs_abs]

/-- Of two values of which one is not above a third, the larger one is above it if the other is. -/
theorem lt_larger_iff {x p c : Float} (hp : p ≤ x) : x < larger p c ↔ x < c := by
  obtain ⟨hnan, -, -⟩ := le_iff_orderValue.1 hp
  rw [larger, hnan, if_neg Bool.false_ne_true]
  split_ifs with hlt
  · exact Iff.rfl
  · have hx : ¬ x < p := not_lt_of_le_float hp
    exact ⟨fun h => absurd h hx, fun h => absurd (lt_of_le_of_lt_float hp h) hlt⟩

theorem approximately_float (a b : Float) : approximately a b = true ↔
    Float.abs (b - a) < larger (Closeness.relative * larger (Float.abs a) (Float.abs b)) Closeness.absolute :=
  decide_eq_true_iff

/-! ## Symmetry -/

theorem larger_abs_comm (x y : Float) : larger (Float.abs x) (Float.abs y) = larger (Float.abs y) (Float.abs x) := by
  have hextreme := Extremum.isExtreme_pick .max (Float.abs x) (Float.abs y)
  have hextreme' := (Extremum.isExtreme_pick .max (Float.abs y) (Float.abs x)).congr fun v =>
    (List.Perm.swap ..).mem_iff
  have hsame := hextreme.sameNumber hextreme'
  have hpicked (x y : Float) : ∃ z, larger (Float.abs x) (Float.abs y) = Float.abs z := by
    rcases Extremum.pick_eq_or .max (Float.abs x) (Float.abs y) with h | h
    · exact ⟨x, h⟩
    · exact ⟨y, h⟩
  obtain ⟨z, hz⟩ := hpicked x y
  obtain ⟨z', hz'⟩ := hpicked y x
  rw [hz, hz']
  refine abs_eq_of_sameNumber ?_
  rw [← hz, ← hz']
  exact hsame

/-- Closeness of doubles is symmetric, roundings included. -/
theorem approximately_comm (a b : Float) : approximately a b = approximately b a := by
  rw [Bool.eq_iff_iff, approximately_float, approximately_float, abs_sub_comm_float, larger_abs_comm]

/-! ## Doubles close to zero -/

/-- **A double is close to zero if it is finite and its magnitude is less than `2 ^ -49`.** -/
theorem approximately_zero (x : Float) :
    approximately x 0 = true ↔ x.isFinite = true ∧ |exactValue x| < 2 ^ (-49 : Int) := by
  rw [approximately_float, abs_zero_sub]
  by_cases hnan : x.isNaN = true
  · refine iff_of_false (not_lt_of_isNaN_left ((isNaN_abs x).trans hnan)) fun h => ?_
    rw [isNaN_of_isFinite h.1] at hnan
    cases hnan
  obtain ⟨habsolute, hvalue⟩ := exactValue_absolute
  rcases isFinite_or_abs_eq_inf (by simpa using hnan) with hfinite | hinf
  · have hfinite' : (Float.abs x).isFinite = true := (isFinite_abs x).trans hfinite
    have hlarger : larger (Float.abs x) (Float.abs 0) = Float.abs x := by
      refine larger_of_not_lt (isNaN_of_isFinite hfinite') ?_
      rw [lt_iff_exactValue hfinite' rfl, exactValue_abs]
      exact (abs_nonneg _).not_gt
    rw [hlarger, lt_larger_iff (relative_mul_le hfinite), lt_iff_exactValue hfinite' habsolute, exactValue_abs, hvalue]
    exact (and_iff_right hfinite).symm
  · refine iff_of_false ?_ fun h => ?_
    · rw [hinf]
      exact not_inf_lt _
    · have hfinite := (isFinite_abs x).trans h.1
      rw [hinf] at hfinite
      exact absurd hfinite (by decide +kernel)

/-! ## Products of whole numbers -/

theorem toInt_eq_zero_iff {n : Int32} : n.toInt = 0 ↔ n = 0 :=
  Int32.toInt_inj (y := 0)

/-- **No product of two whole numbers that are not zero counts as zero.** -/
theorem approximately_zero_product (a b : Int32) :
    approximately (wholeValue a * wholeValue b) 0 = true ↔ a = 0 ∨ b = 0 := by
  obtain ⟨ha, hvalue⟩ := exactValue_wholeValue a
  obtain ⟨hb, hvalue'⟩ := exactValue_wholeValue b
  rw [approximately_zero, ← @toInt_eq_zero_iff a, ← @toInt_eq_zero_iff b, ← mul_eq_zero]
  have hexact : |exactValue (wholeValue a) * exactValue (wholeValue b)| = |a.toInt * b.toInt| := by
    rw [hvalue, hvalue', ← Int.cast_mul, Int.cast_abs]
  generalize a.toInt * b.toInt = product at *
  constructor
  · rintro ⟨hfinite, hsmall⟩
    by_contra hproduct
    -- the product is at least one in magnitude, and one is a double
    obtain ⟨hone, hvalue⟩ := exactValue_wholeValue 1
    have hle : |exactValue (wholeValue 1)| ≤ |exactValue (wholeValue a) * exactValue (wholeValue b)| := by
      rw [hexact, hvalue]
      exact_mod_cast Int.one_le_abs hproduct
    have hlarge := (le_product ha hb hone hle hfinite).trans_lt hsmall
    rw [hvalue, show (1 : Int32).toInt = 1 by decide] at hlarge
    norm_num at hlarge
  · rintro rfl
    obtain ⟨hnull, hvalue⟩ := exactValue_wholeValue 0
    have hle : |exactValue (wholeValue a) * exactValue (wholeValue b)| ≤ |exactValue (wholeValue 0)| := by
      rw [hexact]
      exact (abs_nonneg _).trans_eq' (by simp)
    obtain ⟨hfinite, hsmall⟩ := product_le ha hb hnull hle
    refine ⟨hfinite, hsmall.trans_lt ?_⟩
    rw [hvalue, show (0 : Int32).toInt = 0 by decide]
    norm_num

end Formulary
