import Formulary.Proofs.Numeric.Opposites
import Formulary.Proofs.Numeric.Rounding

/-!
# Magnitudes of doubles

The magnitude of a double stands for the magnitude of its number (`exactValue_abs`), finite doubles are compared by
their numbers (`lt_iff_exactValue`), and a product stays on the side of a third double on which the product of the
numbers is (`product_le`, `le_product`).
-/

namespace Formulary

open Float.Model (Format UnpackedFloat)
open Float.Model.UnpackedFloat

/-! ## Values and magnitudes -/

section
variable {x y : Float}

theorem unpack_abs (x : Float) : (Float.abs x).toModel.unpack = x.toModel.unpack.abs :=
  unpack_pack (canonical_unpack _).abs

/-- The difference to zero has the magnitude of the value itself. -/
theorem unpack_abs_zero_sub (x : Float) : (Float.abs (0 - x)).toModel.unpack = x.toModel.unpack.abs := by
  have hsub : (0 - x).toModel.unpack = UnpackedFloat.unpack Format.binary64 (UnpackedFloat.pack Format.binary64
      (UnpackedFloat.sub Format.binary64 (.zero .positive) x.toModel.unpack)) := rfl
  have hcanonical : Canonical x.toModel.unpack := canonical_unpack _
  rw [unpack_abs, hsub]
  generalize x.toModel.unpack = f at *
  cases f with
  | notANumber => rfl
  | infinity s | zero s => cases s <;> rfl
  | finite s m e hm => exact (congrArg UnpackedFloat.abs (unpack_pack hcanonical.neg)).trans rfl

/-- A double is unpacked from its bits. -/
theorem unpack_of_toBits {bits : UInt64} (h : x.toBits = bits) :
    x.toModel.unpack = UnpackedFloat.unpack Format.binary64 bits.toBitVec :=
  congrArg (fun bits : UInt64 => UnpackedFloat.unpack Format.binary64 bits.toBitVec) h

theorem exactValue_of_unpack {m : Nat} {e : Int} {hm : 0 < m}
    (h : x.toModel.unpack = .finite .positive m e hm) : x.isFinite = true ∧ exactValue x = m * 2 ^ e := by
  show x.toModel.unpack.isFinite = true ∧ rationalOf x.toModel.unpack = m * 2 ^ e
  rw [h]
  exact ⟨rfl, rationalOf_positive hm⟩

theorem eq_of_unpack_eq (h : x.toModel.unpack = y.toModel.unpack) : x = y := by
  have hpacked (z : Float) : z = .ofModel (.pack z.toModel.unpack) := z.ofBits_toBits.symm
  rw [hpacked x, hpacked y, h]

theorem abs_zero_sub (x : Float) : Float.abs (0 - x) = Float.abs x :=
  eq_of_unpack_eq ((unpack_abs_zero_sub x).trans (unpack_abs x).symm)

theorem isFinite_abs (x : Float) : (Float.abs x).isFinite = x.isFinite := by
  show (Float.abs x).toModel.unpack.isFinite = x.toModel.unpack.isFinite
  rw [unpack_abs]
  cases x.toModel.unpack <;> rfl

theorem isNaN_abs (x : Float) : (Float.abs x).isNaN = x.isNaN := by
  show (Float.abs x).toModel.unpack.isNaN = x.toModel.unpack.isNaN
  rw [unpack_abs]
  cases x.toModel.unpack <;> rfl

theorem exactValue_abs (x : Float) : exactValue (Float.abs x) = |exactValue x| := by
  rw [exactValue, unpack_abs, exactValue]
  cases x.toModel.unpack with
  | notANumber | infinity s | zero s => exact abs_zero.symm
  | finite s m e hm => exact (abs_rationalOf_finite s hm).symm

theorem exactValue_neg (x : Float) : exactValue (-x) = -exactValue x := by
  rw [exactValue, unpack_neg, exactValue]
  cases x.toModel.unpack with
  | notANumber | infinity s | zero s => exact neg_zero.symm
  | finite s m e hm =>
    cases s with
    | negative => exact neg_eq_iff_eq_neg.1 (rationalOf_negative hm).symm
    | positive => exact rationalOf_negative hm

theorem isNaN_of_isFinite (h : x.isFinite = true) : x.isNaN = false := by
  rw [isNaN_eq_false_iff]
  intro hnan
  have hfinite : x.toModel.unpack.isFinite = true := h
  rw [hnan] at hfinite
  cases hfinite

theorem lt_iff_exactValue (hx : x.isFinite = true) (hy : y.isFinite = true) : x < y ↔ exactValue x < exactValue y := by
  rw [lt_iff_orderValue, orderValue, orderValue, numberOf_of_isFinite hx, numberOf_of_isFinite hy, WithBot.coe_lt_coe,
    WithTop.coe_lt_coe]
  simp only [isNaN_of_isFinite hx, isNaN_of_isFinite hy, true_and]
  rfl

theorem le_iff_exactValue (hx : x.isFinite = true) (hy : y.isFinite = true) : x ≤ y ↔ exactValue x ≤ exactValue y := by
  rw [← not_lt_iff_le (isNaN_of_isFinite hy) (isNaN_of_isFinite hx), lt_iff_exactValue hy hx, not_lt]

/-- A double that is not NaN is finite, or infinite in magnitude. -/
theorem isFinite_or_abs_eq_inf (h : x.isNaN = false) : x.isFinite = true ∨ Float.abs x = Float.inf := by
  have hbits : Float.inf.toBits = 0x7FF0000000000000 := by decide +kernel
  have hinf : Float.inf.toModel.unpack = .infinity .positive := (unpack_of_toBits hbits).trans rfl
  rcases isFinite_or_infinity (isNaN_eq_false_iff.1 h) with hfinite | hinfinity | hinfinity
  · exact .inl hfinite
  · exact .inr (eq_of_unpack_eq (by rw [unpack_abs, hinfinity, hinf, UnpackedFloat.abs]))
  · exact .inr (eq_of_unpack_eq (by rw [unpack_abs, hinfinity, hinf, UnpackedFloat.abs]))

end

/-! ## Magnitudes that are the same number -/

theorem abs_neg_unpacked (f : UnpackedFloat) : f.neg.abs = f.abs := by
  cases f <;> rfl

theorem Alike.abs_eq {f g : UnpackedFloat} (h : Alike f g) : f.abs = g.abs := by
  cases h with
  | refl => rfl
  | zero s t => rfl

theorem abs_sub_comm_float (x y : Float) : Float.abs (x - y) = Float.abs (y - x) := by
  apply eq_of_unpack_eq
  rw [unpack_abs, unpack_abs, ← (alike_neg_sub x y).abs_eq, abs_neg_unpacked]

/-- Magnitudes that are the same number are equal. -/
theorem abs_eq_of_sameNumber {x y : Float} (h : SameNumber (Float.abs x) (Float.abs y)) :
    Float.abs x = Float.abs y := by
  have habs (z : Float) : (Float.abs z).toModel.unpack.abs = (Float.abs z).toModel.unpack := by
    rw [unpack_abs]
    cases z.toModel.unpack <;> rfl
  apply eq_of_unpack_eq
  rw [← habs x, ← habs y]
  exact (sameNumber_iff_alike.1 h).abs_eq

/-! ## Products of doubles -/

section
variable {x y b : Float} (hx : x.isFinite = true) (hy : y.isFinite = true) (hb : b.isFinite = true)
include hx hy hb

/-- A product that is not larger in magnitude than a double is not rounded to more than that. -/
theorem product_le (h : |exactValue x * exactValue y| ≤ |exactValue b|) :
    (x * y).isFinite = true ∧ |exactValue (x * y)| ≤ |exactValue b| :=
  (roundedFrom_mul (canonical_unpack _) (canonical_unpack _) hx hy).le (canonical_unpack _) hb h

/-- A product that is not smaller in magnitude than a double is not rounded to less than that. -/
theorem le_product (h : |exactValue b| ≤ |exactValue x * exactValue y|) (hproduct : (x * y).isFinite = true) :
    |exactValue b| ≤ |exactValue (x * y)| :=
  (roundedFrom_mul (canonical_unpack _) (canonical_unpack _) hx hy).ge (canonical_unpack _) hb h hproduct

end

/-! ## Whole numbers -/

theorem rationalOf_unpackedNat {n : Nat} (h : n < 2 ^ 53) :
    (unpackedNat n).isFinite = true ∧ rationalOf (unpackedNat n) = n := by
  rcases Nat.eq_zero_or_pos n with rfl | hpos
  · exact ⟨rfl, Nat.cast_zero.symm⟩
  · have hlog : n.log2 ≤ 52 := Nat.le_of_lt_succ ((Nat.log2_lt hpos.ne').2 h)
    have hexponent : (n.log2 : Int) - 52 = -(52 - n.log2 : Nat) := by omega
    rw [unpackedNat_of_pos hpos]
    refine ⟨rfl, (rationalOf_positive _).trans ?_⟩
    rw [wholeMantissa, hexponent, zpow_neg, zpow_natCast]
    push_cast
    exact mul_inv_cancel_right₀ (by positivity) _

/-- A whole number is a double as it stands. -/
theorem exactValue_wholeValue (n : Int32) : (wholeValue n).isFinite = true ∧ exactValue (wholeValue n) = n.toInt := by
  have hlow : -2 ^ 31 ≤ n.toInt := n.le_toInt
  have hhigh : n.toInt < 2 ^ 31 := n.toInt_lt
  have hnat {k : Nat} (h : k < 2 ^ 53) : (Float.ofNat k).isFinite = true ∧ exactValue (Float.ofNat k) = k := by
    show (Float.ofNat k).toModel.unpack.isFinite = true ∧ rationalOf (Float.ofNat k).toModel.unpack = k
    rw [unpack_ofNat h]
    exact rationalOf_unpackedNat h
  rw [wholeValue]
  generalize n.toInt = i at *
  cases i with
  | ofNat k => exact hnat (by simp at hhigh; omega)
  | negSucc k =>
    obtain ⟨hfinite, hvalue⟩ := hnat (show k + 1 < 2 ^ 53 by omega)
    refine ⟨isFinite_neg hfinite, ?_⟩
    show exactValue (-Float.ofNat (k + 1)) = _
    rw [exactValue_neg, hvalue, Int.cast_negSucc]

end Formulary
