import Mathlib
import Formulary.Numeric

/-!
# Whole numbers as doubles

A whole number of up to 53 bits is a double as it stands: nothing is rounded on the way (`unpack_ofNat`). So the
doubles of whole numbers are in the order of the numbers (`wholeValue_le`).
-/

namespace Formulary

open Float.Model (Format UnpackedFloat totalExponent)
open Float.Model.UnpackedFloat

/-! ## Normal doubles -/

theorem log2_of_normal {m : Nat} (hlow : 2 ^ 52 ≤ m) (hhigh : m < 2 ^ 53) (k : Nat) :
    (m * 2 ^ k).log2 = 52 + k := by
  have hpos : 0 < m * 2 ^ k := Nat.mul_pos (by omega) (Nat.two_pow_pos k)
  rw [Nat.log2_eq_iff (by omega), Nat.add_right_comm, Nat.pow_add, Nat.pow_add]
  exact ⟨Nat.mul_le_mul_right _ hlow, Nat.mul_lt_mul_of_pos_right hhigh (Nat.two_pow_pos k)⟩

/-- A normal double is unpacked from what it is packed into. -/
theorem unpack_pack_normal (s : Sign) {m : Nat} {e : Int} (hm : 0 < m) (hlow : 2 ^ 52 ≤ m) (hhigh : m < 2 ^ 53)
    (hmin : -1074 ≤ e) (hmax : e ≤ 971) :
    UnpackedFloat.unpack Format.binary64 (UnpackedFloat.pack Format.binary64 (.finite s m e hm)) =
      .finite s m e hm := by
  have hbias : (Format.binary64.exponentBias : Int) = 1023 := rfl
  have hbits : Format.binary64.mantissaBits = 53 := rfl
  have hexponent : (BitVec.ofNat Format.binary64.exponentBits (e + 1023 + (52 : Nat)).toNat).toNat =
      (e + 1075).toNat := by
    show (e + 1023 + (52 : Nat)).toNat % 2048 = _
    omega
  have hmantissa : (1#1 ++ BitVec.ofNat Format.binary64.mantissaBitsWithoutImplicit m).toNat = m := by
    rw [BitVec.toNat_append, ← Nat.shiftLeft_add_eq_or_of_lt (BitVec.isLt _), Nat.shiftLeft_eq, BitVec.toNat_ofNat]
    show 1 * 2 ^ 52 + m % 2 ^ 52 = m
    omega
  have hlog : m.log2 = 52 := by simpa using log2_of_normal hlow hhigh 0
  rw [UnpackedFloat.pack]
  simp only [hlog, hbias, hbits]
  rw [if_neg (by show ¬ 2048 ≤ _; omega), if_pos trivial, UnpackedFloat.unpack]
  simp only [unpackMantissa_packComponents, unpackExponent_packComponents, unpackSign_packComponents,
    Sign.ofBitVec_toBitVec, hbias]
  rw [if_neg, if_neg]
  · simp only [hmantissa, hexponent]
    congr 1
    show _ - (1023 + (52 : Nat)) = e
    omega
  · intro hzero
    have := congrArg BitVec.toNat hzero
    rw [hexponent] at this
    have hvalue : (0#11).toNat = 0 := rfl
    omega
  · intro hones
    have := congrArg BitVec.toNat hones
    rw [hexponent] at this
    have hvalue : (-1#11).toNat = 2047 := rfl
    omega

/-! ## Rounding what need not be rounded -/

/-- Zeros that are shifted out leave nothing to round. -/
theorem shiftRight_exact (m k : Nat) :
    (ExtendedMantissa.ofMantissaAndAccuracy (m * 2 ^ k) .exact >>> k) =
      ExtendedMantissa.ofMantissaAndAccuracy m .exact := by
  show k.repeat ExtendedMantissa.shiftRightOne ⟨m * 2 ^ k, false, false⟩ = ⟨m, false, false⟩
  induction k generalizing m with
  | zero => simp [Nat.repeat]
  | succ k ih =>
    rw [Nat.repeat, Nat.pow_succ, Nat.mul_comm (2 ^ k), ← Nat.mul_assoc, ih]
    simp [ExtendedMantissa.shiftRightOne]

/-- A mantissa of 53 bits, with zeros behind it, is rounded to itself. -/
theorem roundWithAccuracy_exact (s : Sign) {m : Nat} {e : Int} (hm : 0 < m) (hlow : 2 ^ 52 ≤ m) (hhigh : m < 2 ^ 53)
    (hmin : -1074 ≤ e) (k : Nat) :
    roundWithAccuracy Format.binary64 s (m * 2 ^ k) (e - k) .exact = .finite s m e hm := by
  have htarget (j : Nat) : Format.binary64.targetExponent (totalExponent (m * 2 ^ j) (e - j)) = e := by
    have hmantissaBits : (Format.binary64.mantissaBits : Int) = 53 := rfl
    have hminExponent : Format.binary64.minExponent = -1074 := rfl
    rw [Format.targetExponent, totalExponent, log2_of_normal hlow hhigh, hmantissaBits, hminExponent]
    omega
  have hshift (j : Nat) : shiftToTargetExponent Format.binary64 (m * 2 ^ j) (e - j) .exact =
      (ExtendedMantissa.ofMantissaAndAccuracy m .exact, e) := by
    have hamount : (e - (e - j)).toNat = j := by omega
    unfold shiftToTargetExponent shiftToExponent
    simp only [htarget, hamount, shiftRight_exact]
    congr 1
    omega
  have hrounded : (ExtendedMantissa.ofMantissaAndAccuracy m .exact).roundedMantissa = m := rfl
  unfold roundWithAccuracy
  simp only [hshift, hrounded]
  have hagain := hshift 0
  simp at hagain
  simp only [hagain]
  exact dif_neg (by show ¬ m = 0; omega)

/-! ## Whole numbers -/

/-- The mantissa of a whole number, its bits moved up to the highest place. -/
def wholeMantissa (n : Nat) : Nat :=
  n * 2 ^ (52 - n.log2)

theorem wholeMantissa_bounds {n : Nat} (hpos : 0 < n) (h : n < 2 ^ 53) :
    2 ^ 52 ≤ wholeMantissa n ∧ wholeMantissa n < 2 ^ 53 := by
  have hlog : n.log2 ≤ 52 := Nat.le_of_lt_succ ((Nat.log2_lt (by omega)).2 h)
  have hlow : 2 ^ n.log2 * 2 ^ (52 - n.log2) ≤ wholeMantissa n :=
    Nat.mul_le_mul_right _ (Nat.log2_self_le (by omega))
  have hhigh : wholeMantissa n < 2 ^ (n.log2 + 1) * 2 ^ (52 - n.log2) :=
    Nat.mul_lt_mul_of_pos_right Nat.lt_log2_self (Nat.two_pow_pos _)
  rw [← Nat.pow_add, show n.log2 + (52 - n.log2) = 52 by omega] at hlow
  rw [← Nat.pow_add, show n.log2 + 1 + (52 - n.log2) = 53 by omega] at hhigh
  exact ⟨hlow, hhigh⟩

/-- A whole number that is not negative, as the double that it is. -/
def unpackedNat (n : Nat) : UnpackedFloat :=
  if h : 0 < n then .finite .positive (wholeMantissa n) (n.log2 - 52) (Nat.mul_pos h (Nat.two_pow_pos _))
  else .zero .positive

theorem unpackedNat_of_pos {n : Nat} (h : 0 < n) : unpackedNat n =
    .finite .positive (wholeMantissa n) (n.log2 - 52) (Nat.mul_pos h (Nat.two_pow_pos _)) :=
  dif_pos h

section
variable {n : Nat} (hpos : 0 < n) (h : n < 2 ^ 53)
include hpos h

/-- Normalizing moves up the bits and rounds nothing. -/
theorem normalize_nat : UnpackedFloat.normalize Format.binary64 n 0 .positive = unpackedNat n := by
  obtain ⟨hlow, hhigh⟩ := wholeMantissa_bounds hpos h
  have hlog : n.log2 ≤ 52 := Nat.le_of_lt_succ ((Nat.log2_lt (by omega)).2 h)
  have hamount : (0 - Format.binary64.targetExponent (totalExponent n 0)).toNat = 52 - n.log2 := by
    have hmantissaBits : (Format.binary64.mantissaBits : Int) = 53 := rfl
    have hminExponent : Format.binary64.minExponent = -1074 := rfl
    rw [Format.targetExponent, totalExponent, hmantissaBits, hminExponent]
    omega
  have hexponent : (0 : Int) - (52 - n.log2 : Nat) = n.log2 - 52 := by omega
  have hcompare : compare (n : Int) 0 = .gt := Int.compare_eq_gt.2 (by omega)
  have hexact := roundWithAccuracy_exact .positive (Nat.lt_of_lt_of_le (by decide) hlow) hlow hhigh
    (e := n.log2 - 52) (by omega) 0
  simp at hexact
  unfold UnpackedFloat.normalize
  simp only [hcompare]
  show roundWithAccuracy Format.binary64 .positive (n <<< _) (0 - (_ : Nat)) .exact = _
  rw [Int.toNat_natCast, hamount, hexponent, Nat.shiftLeft_eq, ← wholeMantissa, hexact, unpackedNat_of_pos hpos]

theorem unpack_pack_nat : UnpackedFloat.unpack Format.binary64 (UnpackedFloat.pack Format.binary64 (unpackedNat n)) =
    unpackedNat n := by
  obtain ⟨hlow, hhigh⟩ := wholeMantissa_bounds hpos h
  have hlog : n.log2 ≤ 52 := Nat.le_of_lt_succ ((Nat.log2_lt (by omega)).2 h)
  rw [unpackedNat_of_pos hpos]
  exact unpack_pack_normal .positive _ hlow hhigh (by omega) (by omega)

theorem mul_one_nat : UnpackedFloat.mul Format.binary64 (unpackedNat n)
    (.finite .positive (2 ^ 52) (-52) (by decide)) = unpackedNat n := by
  obtain ⟨hlow, hhigh⟩ := wholeMantissa_bounds hpos h
  rw [unpackedNat_of_pos hpos]
  exact roundWithAccuracy_exact .positive (Nat.lt_of_lt_of_le (by decide) hlow) hlow hhigh (by omega) 52

end

/-- **A whole number of up to 53 bits is a double as it stands.** -/
theorem unpack_ofNat {n : Nat} (h : n < 2 ^ 53) : (Float.ofNat n).toModel.unpack = unpackedNat n := by
  rcases Nat.eq_zero_or_pos n with rfl | hpos
  · rfl
  · have hproduct : Float.ofNat n = n.toUInt64.toFloat * Float.ofBits 0x3FF0000000000000 := by
      show Float.ofScientific n false 0 = _
      unfold Float.ofScientific
      rw [dif_pos ⟨h, by decide⟩]
      rfl
    have hn : n.toUInt64.toNat = n := UInt64.toNat_ofNat_of_lt (Nat.lt_trans h (by decide))
    have hvalue : n.toUInt64.toFloat.toModel.unpack = unpackedNat n := by
      show UnpackedFloat.unpack Format.binary64 (UnpackedFloat.pack Format.binary64
        (UnpackedFloat.normalize Format.binary64 n.toUInt64.toNat 0 .positive)) = _
      rw [hn, normalize_nat hpos h, unpack_pack_nat hpos h]
    have hone : (Float.ofBits 0x3FF0000000000000).toModel.unpack = .finite .positive (2 ^ 52) (-52) (by decide) := rfl
    rw [hproduct]
    show UnpackedFloat.unpack Format.binary64 (UnpackedFloat.pack Format.binary64
      (UnpackedFloat.mul Format.binary64 n.toUInt64.toFloat.toModel.unpack
        (Float.ofBits 0x3FF0000000000000).toModel.unpack)) = _
    rw [hvalue, hone, mul_one_nat hpos h, unpack_pack_nat hpos h]

/-- So is its opposite. -/
theorem unpack_neg_ofNat {n : Nat} (hpos : 0 < n) (h : n < 2 ^ 53) : (-Float.ofNat n).toModel.unpack =
    .finite .negative (wholeMantissa n) (n.log2 - 52) (Nat.mul_pos hpos (Nat.two_pow_pos _)) := by
  obtain ⟨hlow, hhigh⟩ := wholeMantissa_bounds hpos h
  have hlog : n.log2 ≤ 52 := Nat.le_of_lt_succ ((Nat.log2_lt (by omega)).2 h)
  show UnpackedFloat.unpack Format.binary64 (UnpackedFloat.pack Format.binary64 (Float.ofNat n).toModel.unpack.neg) = _
  rw [unpack_ofNat h, unpackedNat_of_pos hpos]
  exact unpack_pack_normal .negative _ hlow hhigh (by omega) (by omega)

/-! ## Order -/

theorem log2_le_log2 {m n : Nat} (hpos : 0 < m) (h : m ≤ n) : m.log2 ≤ n.log2 :=
  (Nat.le_log2 (by omega)).2 (Nat.le_trans (Nat.log2_self_le (by omega)) h)

/-- Of two whole numbers the larger one has the larger exponent, or the same exponent and the larger mantissa. -/
theorem isLE_compare_whole {m n : Nat} (hpos : 0 < m) (h : m ≤ n) :
    ((compare ((m.log2 : Int) - 52) (n.log2 - 52)).then (compare (wholeMantissa m) (wholeMantissa n))).isLE = true := by
  have hlog := log2_le_log2 hpos h
  rcases Nat.lt_or_eq_of_le hlog with hlt | heq
  · rw [Int.compare_eq_lt.2 (by omega)]
    rfl
  · have hmantissa : wholeMantissa m ≤ wholeMantissa n := by
      rw [wholeMantissa, wholeMantissa, heq]
      exact Nat.mul_le_mul_right _ h
    rw [heq, Int.compare_eq_eq.2 rfl]
    simpa [Nat.isLE_compare] using hmantissa

theorem le_iff_unpack_le {x y : Float} : x ≤ y ↔ x.toModel.unpack.le y.toModel.unpack = true :=
  decide_eq_true_iff

theorem ofNat_le_ofNat {m n : Nat} (h : m ≤ n) (hn : n < 2 ^ 53) : Float.ofNat m ≤ Float.ofNat n := by
  rw [le_iff_unpack_le, unpack_ofNat (by omega), unpack_ofNat hn]
  rcases Nat.eq_zero_or_pos m with rfl | hm
  · rcases Nat.eq_zero_or_pos n with rfl | hpos
    · rfl
    · rw [unpackedNat_of_pos hpos]
      rfl
  · rw [unpackedNat_of_pos hm, unpackedNat_of_pos (by omega)]
    exact isLE_compare_whole hm h

theorem neg_ofNat_le_ofNat {m n : Nat} (hpos : 0 < m) (hm : m < 2 ^ 53) (hn : n < 2 ^ 53) :
    -Float.ofNat m ≤ Float.ofNat n := by
  rw [le_iff_unpack_le, unpack_neg_ofNat hpos hm, unpack_ofNat hn]
  rcases Nat.eq_zero_or_pos n with rfl | hn
  · rfl
  · rw [unpackedNat_of_pos hn]
    rfl

theorem neg_ofNat_le_neg_ofNat {m n : Nat} (hpos : 0 < n) (h : n ≤ m) (hm : m < 2 ^ 53) :
    -Float.ofNat m ≤ -Float.ofNat n := by
  rw [le_iff_unpack_le, unpack_neg_ofNat (by omega) hm, unpack_neg_ofNat hpos (by omega)]
  show (Ordering.swap _).isLE = true
  rw [Ordering.swap_then, ← Std.OrientedCmp.eq_swap, ← Std.OrientedCmp.eq_swap]
  exact isLE_compare_whole hpos h

/-- **The doubles of whole numbers are in the order of the numbers.** -/
theorem wholeValue_le {a b : Int32} (h : a ≤ b) : wholeValue a ≤ wholeValue b := by
  have hlow : -2 ^ 31 ≤ a.toInt := a.le_toInt
  have hhigh : b.toInt < 2 ^ 31 := b.toInt_lt
  have hab : a.toInt ≤ b.toInt := Int32.le_iff_toInt_le.1 h
  rw [wholeValue, wholeValue]
  generalize a.toInt = i at *
  generalize b.toInt = j at *
  cases i with
  | ofNat m =>
    cases j with
    | ofNat n => exact ofNat_le_ofNat (by simpa using hab) (by simp at hhigh; omega)
    | negSucc n =>
      rw [Int.ofNat_eq_natCast] at hab
      omega
  | negSucc m =>
    cases j with
    | ofNat n => exact neg_ofNat_le_ofNat (Nat.succ_pos m) (by omega) (by simp at hhigh; omega)
    | negSucc n => exact neg_ofNat_le_neg_ofNat (Nat.succ_pos n) (by omega) (by omega)

end Formulary
