import Mathlib
import Formulary.Json.Basic

/-!
# Doubles that are finite

A double is finite unless its exponent is too large. The opposite of a finite double is finite
(`isFinite_neg`), and every whole number that documents have for one is a finite double
(`isFinite_ofInt`). Both follow from how far rounding can raise an exponent (`exponentLE_roundWithAccuracy`).
-/

namespace Formulary

open Float.Model (Format UnpackedFloat totalExponent)
open Float.Model.UnpackedFloat

/-- A zero, or a finite value whose exponent is at most `bound`. -/
def ExponentLE (bound : Int) : UnpackedFloat → Prop
  | .zero _ => True
  | .finite _ _ e _ => e ≤ bound
  | _ => False

theorem ExponentLE.isFinite {bound : Int} {f : UnpackedFloat} (h : ExponentLE bound f) : f.isFinite = true := by
  cases f with
  | zero s => rfl
  | finite s m e hm => rfl
  | infinity s => exact absurd h id
  | notANumber => exact absurd h id

/-! ## Packing -/

/-- The bits of a double with an exponent field that is not all ones. -/
theorem exponentLE_unpack {b : BitVec Format.binary64.numBits} {bound : Int} (hlow : -1074 ≤ bound)
    (hones : unpackExponent b ≠ -1#_)
    (hbound : unpackExponent b ≠ 0#_ → ((unpackExponent b).toNat : Int) - 1075 ≤ bound) :
    ExponentLE bound (UnpackedFloat.unpack Format.binary64 b) := by
  have hbias : (Format.binary64.exponentBias : Int) = 1023 := rfl
  unfold UnpackedFloat.unpack
  simp only
  rw [if_neg hones]
  split
  · next hzero =>
    split
    · trivial
    · show _ ≤ bound
      rw [hzero, hbias]
      simpa using hlow
  · next hzero =>
    show _ ≤ bound
    have := hbound hzero
    rw [hbias]
    omega

theorem exponentLE_of_isFinite {b : BitVec Format.binary64.numBits}
    (h : (UnpackedFloat.unpack Format.binary64 b).isFinite = true) :
    ExponentLE 971 (UnpackedFloat.unpack Format.binary64 b) := by
  have hones : unpackExponent b ≠ -1#_ := by
    intro hones
    unfold UnpackedFloat.unpack at h
    simp only at h
    rw [if_pos hones] at h
    split at h <;> exact absurd h (by simp [UnpackedFloat.isFinite])
  refine exponentLE_unpack (by decide) hones fun _ => ?_
  have hlt : (unpackExponent b).toNat < 2048 := (unpackExponent b).isLt
  have hne : (unpackExponent b).toNat ≠ 2047 := by
    intro h
    exact hones (BitVec.eq_of_toNat_eq h)
  omega

/-- A value whose exponent has room is unpacked from what it is packed into. -/
theorem exponentLE_pack {bound : Int} (hlow : -1074 ≤ bound) (hhigh : bound ≤ 971) {f : UnpackedFloat}
    (h : ExponentLE bound f) :
    ExponentLE bound (UnpackedFloat.unpack Format.binary64 (UnpackedFloat.pack Format.binary64 f)) := by
  cases f with
  | infinity s => exact absurd h id
  | notANumber => exact absurd h id
  | zero s => exact exponentLE_unpack hlow (by simp [UnpackedFloat.pack, packedZero]) (by
      simp [UnpackedFloat.pack, packedZero])
  | finite s m e hm =>
    have hbias : (Format.binary64.exponentBias : Int) = 1023 := rfl
    have he : e ≤ bound := h
    unfold UnpackedFloat.pack
    simp only
    rw [hbias, if_neg (by show ¬ 2048 ≤ _; omega)]
    split
    · refine exponentLE_unpack hlow ?_ ?_
      · rw [unpackExponent_packComponents]
        intro hones
        have := congrArg BitVec.toNat hones
        rw [BitVec.toNat_ofNat, Nat.mod_eq_of_lt (by show _ < 2048; omega)] at this
        have hvalue : (-BitVec.ofNat Format.binary64.exponentBits 1).toNat = 2047 := rfl
        omega
      · rw [unpackExponent_packComponents]
        intro hzero
        rw [BitVec.toNat_ofNat, Nat.mod_eq_of_lt (by show _ < 2048; omega)]
        have : (e + 1023 + (52 : Nat)).toNat ≠ 0 := by
          intro h
          exact hzero (congrArg (BitVec.ofNat 11) h)
        omega
    · exact exponentLE_unpack hlow (by simp) (by simp)

/-- A mantissa that is unpacked has 53 bits. -/
theorem mantissa_lt_of_unpack {b : BitVec Format.binary64.numBits} {s : Sign} {m : Nat} {e : Int} {hm : 0 < m}
    (h : UnpackedFloat.unpack Format.binary64 b = .finite s m e hm) : m < 2 ^ 53 := by
  unfold UnpackedFloat.unpack at h
  simp only at h
  split at h
  · split at h <;> exact absurd h (by simp)
  split at h
  · split at h
    · exact absurd h (by simp)
    · injection h with _ hm
      have := (unpackMantissa b).isLt
      omega
  · injection h with _ hm
    have := (1#1 ++ unpackMantissa b).isLt
    omega

/-! ## Rounding -/

theorem mantissa_shiftRight_le (em : ExtendedMantissa) (n : Nat) : (em >>> n).mantissa ≤ em.mantissa := by
  show (n.repeat ExtendedMantissa.shiftRightOne em).mantissa ≤ em.mantissa
  induction n with
  | zero => exact Nat.le_refl _
  | succ n ih =>
    rw [Nat.repeat]
    exact Nat.le_trans (Nat.div_le_self ..) ih

theorem roundedMantissa_le (em : ExtendedMantissa) : em.roundedMantissa ≤ em.mantissa + 1 := by
  obtain ⟨m, round, sticky⟩ := em
  cases round <;> cases sticky <;>
    simp only [ExtendedMantissa.roundedMantissa, ExtendedMantissa.accuracy, Accuracy.roundToNearestEven] <;> omega

/-- A mantissa shifted to the exponent that it should have. -/
theorem shiftToTargetExponent_bounds (m : Nat) (e : Int) {k : Nat} (hk : m.log2 < k) :
    (shiftToTargetExponent Format.binary64 m e .exact).1.mantissa ≤ m ∧
      (shiftToTargetExponent Format.binary64 m e .exact).2 ≤ max e (max (k + e - 53) (-1074)) := by
  have hmin : Format.binary64.minExponent = -1074 := rfl
  have hbits : (Format.binary64.mantissaBits : Int) = 53 := rfl
  refine ⟨mantissa_shiftRight_le _ _, ?_⟩
  simp only [shiftToTargetExponent, shiftToExponent, Format.targetExponent, totalExponent, hmin, hbits]
  omega

/-- Rounding raises an exponent by as much as the mantissa has bits too many. -/
theorem exponentLE_roundWithAccuracy {s : Sign} {m : Nat} {e bound : Int} (hm : m < 2 ^ 130) (hbound : 0 ≤ bound)
    (he : e ≤ bound) : ExponentLE (bound + 155) (roundWithAccuracy Format.binary64 s m e .exact) := by
  have hlog : m.log2 < 130 := by
    rcases Nat.eq_zero_or_pos m with rfl | hpos
    · decide
    · exact (Nat.log2_lt (Nat.ne_of_gt hpos)).2 hm
  have h1 := shiftToTargetExponent_bounds m e hlog
  have hr := roundedMantissa_le (shiftToTargetExponent Format.binary64 m e .exact).1
  unfold roundWithAccuracy
  simp only
  generalize (shiftToTargetExponent Format.binary64 m e .exact).1.roundedMantissa = m' at *
  have hlog' : m'.log2 < 131 := by
    rcases Nat.eq_zero_or_pos m' with rfl | hpos
    · decide
    · exact (Nat.log2_lt (Nat.ne_of_gt hpos)).2 (by omega)
  have h2 := shiftToTargetExponent_bounds m' (shiftToTargetExponent Format.binary64 m e .exact).2 hlog'
  split
  · trivial
  · show _ ≤ bound + 155
    omega

/-! ## Doubles -/

/-- The opposite of a finite double is finite. -/
theorem isFinite_neg {x : Float} (h : x.isFinite = true) : (-x).isFinite = true := by
  have hx : ExponentLE 971 x.toModel.unpack := exponentLE_of_isFinite h
  have hneg : ExponentLE 971 x.toModel.unpack.neg := by
    cases hf : x.toModel.unpack <;> rw [hf] at hx <;> exact hx
  exact (exponentLE_pack (by decide) (by decide) hneg).isFinite

/-- A whole number of few bits is a double with a small exponent. -/
theorem exponentLE_ofNat {n : Nat} (h : n < 2 ^ 64) :
    ExponentLE 155 (UnpackedFloat.ofNat Format.binary64 n) := by
  show ExponentLE 155 (UnpackedFloat.normalize Format.binary64 n 0 .positive)
  unfold UnpackedFloat.normalize
  split
  · next hlt =>
    have := Int.compare_eq_lt.1 hlt
    omega
  · trivial
  · have hmin : Format.binary64.minExponent = -1074 := rfl
    have hbits : (Format.binary64.mantissaBits : Int) = 53 := rfl
    have hshift : (0 - Format.binary64.targetExponent (totalExponent n 0)).toNat ≤ 52 := by
      simp only [Format.targetExponent, totalExponent, hmin, hbits]
      omega
    show ExponentLE (0 + 155) (roundWithAccuracy Format.binary64 .positive (n <<< _) (0 - _) .exact)
    refine exponentLE_roundWithAccuracy ?_ (by decide) (by omega)
    rw [Nat.shiftLeft_eq]
    calc n * 2 ^ (0 - Format.binary64.targetExponent (totalExponent n 0)).toNat
        ≤ 2 ^ 64 * 2 ^ 52 := Nat.mul_le_mul (Nat.le_of_lt h) (Nat.pow_le_pow_right (by decide) hshift)
      _ < 2 ^ 130 := by decide

/-- A double with a small exponent times one. -/
theorem isFinite_mul_one {x : Float} (h : ExponentLE 155 x.toModel.unpack) :
    (x * Float.ofBits 0x3FF0000000000000).isFinite = true := by
  have hone : (Float.ofBits 0x3FF0000000000000).toModel.unpack =
      .finite .positive (2 ^ 52) (-52) (by decide) := rfl
  have hproduct : ExponentLE 310 (UnpackedFloat.mul Format.binary64 x.toModel.unpack
      (Float.ofBits 0x3FF0000000000000).toModel.unpack) := by
    rw [hone]
    cases hx : x.toModel.unpack with
    | infinity s => simp [hx, ExponentLE] at h
    | notANumber => simp [hx, ExponentLE] at h
    | zero s => trivial
    | finite s m e hm =>
      have hmantissa : m < 2 ^ 53 := mantissa_lt_of_unpack hx
      have he : e ≤ 155 := by
        rw [hx] at h
        exact h
      show ExponentLE (155 + 155) (roundWithAccuracy Format.binary64 _ (m * 2 ^ 52) (e + -52) .exact)
      exact exponentLE_roundWithAccuracy (by omega) (by decide) (by omega)
  exact (exponentLE_pack (by decide) (by decide) hproduct).isFinite

theorem isFinite_ofNat {n : Nat} (h : n < 2 ^ 64) : (Float.ofNat n).isFinite = true := by
  show (Float.ofScientific n false 0).isFinite = true
  unfold Float.ofScientific
  split
  · have hn : n.toUInt64.toNat = n := UInt64.toNat_ofNat_of_lt h
    have hx : ExponentLE 155 n.toUInt64.toFloat.toModel.unpack := by
      refine exponentLE_pack (by decide) (by decide) ?_
      show ExponentLE 155 (UnpackedFloat.ofNat Format.binary64 n.toUInt64.toNat)
      rw [hn]
      exact exponentLE_ofNat h
    exact isFinite_mul_one hx
  · next hlarge =>
    have hpos : n ≠ 0 := by omega
    have hproduct : ExponentLE 155 (UnpackedFloat.ofScientific Format.binary64 n 0) := by
      have hexponents : (2 : Int) ^ Format.binary64.exponentBits = 2048 := rfl
      have hbits : Format.binary64.mantissaBits = 53 := rfl
      unfold UnpackedFloat.ofScientific
      rw [dif_neg hpos, hexponents, if_neg (by decide), if_neg (by omega), if_pos (by decide)]
      simp only [UnpackedFloat.mul, hbits, Nat.shiftLeft_eq]
      have hten : 10 ^ (0 : Int).toNat = 1 := rfl
      have hmantissa : n * 2 ^ 53 * 10 ^ (0 : Int).toNat < 2 ^ 130 := by
        rw [hten]
        omega
      exact exponentLE_roundWithAccuracy hmantissa (Int.le_refl 0) (by decide)
    exact (exponentLE_pack (by decide) (by decide) hproduct).isFinite

/-- **Every whole number of a document is a finite double.** -/
theorem isFinite_ofInt {n : Int} (h : Json.Fits n) : (Float.ofInt n).isFinite = true := by
  obtain ⟨hlow, hhigh⟩ := h
  cases n with
  | ofNat n => exact isFinite_ofNat (by simp at hhigh; omega)
  | negSucc n => exact isFinite_neg (isFinite_ofNat (by omega))

end Formulary
