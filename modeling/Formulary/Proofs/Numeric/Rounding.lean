import Formulary.Proofs.Decimal.Finite
import Formulary.Proofs.Numeric.Values

/-!
# Rounding of products

A product of doubles is computed exactly and then rounded to a whole number of units (`roundedQuotient`). A whole number
on either side of the exact quotient is still on that side of the rounded one (`roundedQuotient_le`,
`le_roundedQuotient`), and so is a double of the rounded product (`roundedFrom_mul`).
-/

namespace Formulary

open Float.Model (Format UnpackedFloat totalExponent)
open Float.Model.UnpackedFloat

/-! ## Rounded quotients -/

theorem mantissa_shiftRight (em : ExtendedMantissa) (k : Nat) : (em >>> k).mantissa = em.mantissa / 2 ^ k := by
  show (k.repeat ExtendedMantissa.shiftRightOne em).mantissa = _
  induction k with
  | zero => simp [Nat.repeat]
  | succ k ih =>
    rw [Nat.repeat, Nat.pow_succ, ← Nat.div_div_eq_div_mul, ← ih]
    rfl

theorem le_roundedMantissa (em : ExtendedMantissa) : em.mantissa ≤ em.roundedMantissa := by
  obtain ⟨m, round, sticky⟩ := em
  cases round <;> cases sticky <;>
    simp only [ExtendedMantissa.roundedMantissa, ExtendedMantissa.accuracy, Accuracy.roundToNearestEven] <;> omega

/-- The whole number that `m / 2 ^ k` is rounded to. -/
def roundedQuotient (m k : Nat) : Nat :=
  (ExtendedMantissa.ofMantissaAndAccuracy m .exact >>> k).roundedMantissa

theorem roundedQuotient_exact (n k : Nat) : roundedQuotient (n * 2 ^ k) k = n := by
  rw [roundedQuotient, shiftRight_exact]
  rfl

theorem roundedQuotient_bounds (m k : Nat) : m / 2 ^ k ≤ roundedQuotient m k ∧ roundedQuotient m k ≤ m / 2 ^ k + 1 := by
  have hmantissa : (ExtendedMantissa.ofMantissaAndAccuracy m .exact >>> k).mantissa = m / 2 ^ k :=
    mantissa_shiftRight _ k
  rw [← hmantissa]
  exact ⟨le_roundedMantissa _, roundedMantissa_le _⟩

theorem le_roundedQuotient {m k n : Nat} (h : n * 2 ^ k ≤ m) : n ≤ roundedQuotient m k :=
  ((Nat.le_div_iff_mul_le (Nat.two_pow_pos k)).2 h).trans (roundedQuotient_bounds m k).1

theorem roundedQuotient_le {m k n : Nat} (h : m ≤ n * 2 ^ k) : roundedQuotient m k ≤ n := by
  rcases h.lt_or_eq with hlt | rfl
  · exact (roundedQuotient_bounds m k).2.trans (Nat.div_lt_of_lt_mul (Nat.mul_comm n _ ▸ hlt))
  · exact (roundedQuotient_exact n k).le

/-! ## Rounding to a mantissa of 53 bits -/

/-- The exponent at which `m * 2 ^ e` has a mantissa of 53 bits, or the least exponent. -/
theorem targetExponent_eq (m : Nat) (e : Int) :
    Format.binary64.targetExponent (totalExponent m e) = max (m.log2 + e - 52) (-1074) := by
  have hbits : (Format.binary64.mantissaBits : Int) = 53 := rfl
  have hmin : Format.binary64.minExponent = -1074 := rfl
  rw [Format.targetExponent, totalExponent, hbits, hmin]
  congr 1
  ring

/-- A mantissa of at most 53 bits is not shifted. -/
theorem shiftToTargetExponent_fits {r : Nat} {t : Int} (hr : r < 2 ^ 53) (ht : -1074 ≤ t) :
    shiftToTargetExponent Format.binary64 r t .exact = (ExtendedMantissa.ofMantissaAndAccuracy r .exact, t) := by
  have hlog : r.log2 ≤ 52 := by
    rcases Nat.eq_zero_or_pos r with rfl | hpos
    · decide
    · exact Nat.le_of_lt_succ ((Nat.log2_lt hpos.ne').2 hr)
  have hamount : (max ((r.log2 : Int) + t - 52) (-1074) - t).toNat = 0 := by omega
  unfold shiftToTargetExponent shiftToExponent
  simp only [targetExponent_eq, hamount]
  exact congrArg _ (Int.add_zero t)

/-- The mantissa after all those is shifted by one place. -/
theorem shiftToTargetExponent_carry {t : Int} (ht : -1074 ≤ t) :
    shiftToTargetExponent Format.binary64 (2 ^ 53) t .exact =
      (ExtendedMantissa.ofMantissaAndAccuracy (2 ^ 52) .exact, t + 1) := by
  have hlog : (2 ^ 53 : Nat).log2 = 53 := Nat.log2_two_pow
  have hamount : (max (((2 ^ 53 : Nat).log2 : Int) + t - 52) (-1074) - t).toNat = 1 := by
    rw [hlog]
    omega
  unfold shiftToTargetExponent shiftToExponent
  simp only [targetExponent_eq, hamount]
  rfl

/-- Rounding comes to a whole number of at most 53 bits, or to the one after those, which is shifted once more. -/
theorem roundWithAccuracy_cases (s : Sign) {m k : Nat} {e t : Int} (ht : t = max (m.log2 + e - 52) (-1074))
    (hk : t = e + k) :
    let r := roundedQuotient m k
    let rounded := roundWithAccuracy Format.binary64 s m e .exact
    r = 0 ∧ rounded = .zero s ∨ (∃ hpos : 0 < r, r < 2 ^ 53 ∧ rounded = .finite s r t hpos) ∨
      r = 2 ^ 53 ∧ rounded = .finite s (2 ^ 52) (t + 1) (by decide) := by
  intro r rounded
  have hmin : -1074 ≤ t := by omega
  have hfirst : shiftToTargetExponent Format.binary64 m e .exact =
      (ExtendedMantissa.ofMantissaAndAccuracy m .exact >>> k, t) := by
    have hamount : (t - e).toNat = k := by omega
    unfold shiftToTargetExponent shiftToExponent
    simp only [targetExponent_eq, ← ht, hamount]
    rw [hk]
  have hle : r ≤ 2 ^ 53 := by
    refine roundedQuotient_le ?_
    calc m ≤ 2 ^ (m.log2 + 1) := Nat.lt_log2_self.le
      _ ≤ 2 ^ (53 + k) := Nat.pow_le_pow_right (by decide) (by omega)
      _ = 2 ^ 53 * 2 ^ k := Nat.pow_add ..
  have hrounded (r' : Nat) (t' : Int) (h : shiftToTargetExponent Format.binary64 r t .exact =
      (ExtendedMantissa.ofMantissaAndAccuracy r' .exact, t')) :
      rounded = if h : r' = 0 then .zero s else .finite s r' t' (Nat.pos_of_ne_zero h) := by
    show roundWithAccuracy Format.binary64 s m e .exact = _
    unfold roundWithAccuracy
    simp only [hfirst, show (ExtendedMantissa.ofMantissaAndAccuracy m .exact >>> k).roundedMantissa = r from rfl, h]
    rfl
  rcases hle.lt_or_eq with hlt | heq
  · rw [hrounded _ _ (shiftToTargetExponent_fits hlt hmin)]
    by_cases hzero : r = 0
    · exact .inl ⟨hzero, dif_pos hzero⟩
    · exact .inr (.inl ⟨Nat.pos_of_ne_zero hzero, hlt, dif_neg hzero⟩)
  · rw [heq] at hrounded
    rw [hrounded _ _ (shiftToTargetExponent_carry hmin)]
    exact .inr (.inr ⟨heq, dif_neg (by decide)⟩)

/-! ## Rounded magnitudes -/

theorem abs_rationalOf_finite (s : Sign) {m : Nat} {e : Int} (hm : 0 < m) :
    |rationalOf (.finite s m e hm)| = m * 2 ^ e := by
  cases s with
  | negative => rw [rationalOf_negative, abs_neg, abs_of_pos (exact_pos hm e)]
  | positive => rw [rationalOf_positive, abs_of_pos (exact_pos hm e)]

theorem exact_le_iff (a b : Nat) (e : Int) (k : Nat) : (a * 2 ^ e : ℚ) ≤ b * 2 ^ (e + k) ↔ a ≤ b * 2 ^ k := by
  have hpos : (0 : ℚ) < 2 ^ e := by positivity
  rw [zpow_add₀ two_ne_zero, zpow_natCast, mul_comm ((2 : ℚ) ^ e), ← mul_assoc, mul_le_mul_iff_left₀ hpos]
  exact_mod_cast Iff.rfl

theorem le_exact_iff (a b : Nat) (e : Int) (k : Nat) : (b * 2 ^ (e + k) : ℚ) ≤ a * 2 ^ e ↔ b * 2 ^ k ≤ a := by
  have hpos : (0 : ℚ) < 2 ^ e := by positivity
  rw [zpow_add₀ two_ne_zero, zpow_natCast, mul_comm ((2 : ℚ) ^ e), ← mul_assoc, mul_le_mul_iff_left₀ hpos]
  exact_mod_cast Iff.rfl

/-- A double that a magnitude is rounded to. It is on the same side of every finite double as that magnitude. -/
structure RoundedFrom (q : ℚ) (z : UnpackedFloat) : Prop where
  not_nan : z ≠ .notANumber
  le : ∀ {b : UnpackedFloat}, Canonical b → b.isFinite = true → q ≤ |rationalOf b| →
    z.isFinite = true ∧ |rationalOf z| ≤ |rationalOf b|
  ge : ∀ {b : UnpackedFloat}, Canonical b → b.isFinite = true → |rationalOf b| ≤ q → z.isFinite = true →
    |rationalOf b| ≤ |rationalOf z|

theorem roundedFrom_zero (s : Sign) : RoundedFrom 0 (.zero s) where
  not_nan := nofun
  le _ _ _ := ⟨rfl, by simp [rationalOf]⟩
  ge _ _ h _ := by simpa [rationalOf] using h

/-- What is too large for a double is packed as an infinity. -/
theorem unpack_pack_or_infinity (s : Sign) {m : Nat} {e : Int} (hm : 0 < m) (hhigh : m < 2 ^ 53) (hmin : -1074 ≤ e)
    (hnormal : 2 ^ 52 ≤ m ∨ e = -1074) :
    let z := UnpackedFloat.unpack Format.binary64 (UnpackedFloat.pack Format.binary64 (.finite s m e hm))
    z = .finite s m e hm ∨ z = .infinity s ∧ (2 ^ 1024 : ℚ) ≤ m * 2 ^ e := by
  intro z
  by_cases hmax : e ≤ 971
  · exact .inl (unpack_pack (show Canonical (.finite s m e hm) from ⟨hhigh, hmin, hmax, hnormal⟩))
  · refine .inr ⟨?_, ?_⟩
    · have hbias : (Format.binary64.exponentBias : Int) = 1023 := rfl
      have hpack : UnpackedFloat.pack Format.binary64 (.finite s m e hm) = packedInfinity Format.binary64 s := by
        rw [UnpackedFloat.pack]
        simp only [hbias]
        exact if_pos (by show 2048 ≤ _; omega)
      show UnpackedFloat.unpack Format.binary64 (UnpackedFloat.pack Format.binary64 (.finite s m e hm)) = _
      rw [hpack]
      cases s <;> rfl
    · calc (2 ^ 1024 : ℚ) = 2 ^ 52 * 2 ^ ((972 : Nat) : Int) := by rw [zpow_natCast, ← pow_add]
        _ ≤ m * 2 ^ e := by
          gcongr
          · exact_mod_cast hnormal.resolve_right (by omega)
          · norm_num
          · omega

/-- No finite double is as large as that. -/
theorem exact_lt_of_canonical {b : UnpackedFloat} (hb : Canonical b) : |rationalOf b| < 2 ^ 1024 := by
  cases b with
  | finite s m e hm =>
    obtain ⟨hhigh, -, hmax, -⟩ := hb
    rw [abs_rationalOf_finite]
    calc (m * 2 ^ e : ℚ) < 2 ^ 53 * 2 ^ e := by
          gcongr
          exact_mod_cast hhigh
      _ ≤ 2 ^ 53 * 2 ^ ((971 : Nat) : Int) := by
          gcongr
          · norm_num
          · exact hmax
      _ = 2 ^ 1024 := by rw [zpow_natCast, ← pow_add]
  | _ => simp [rationalOf]

section
variable {m k : Nat} {e t : Int} (hm : 0 < m) (ht : t = max (m.log2 + e - 52) (-1074)) (hk : t = e + k)
include hm ht hk

/-- The quotient has 53 bits, unless the exponent is the least. -/
theorem normal_or_least : 2 ^ 52 * 2 ^ k ≤ m ∨ t = -1074 := by
  by_cases hleast : t = -1074
  · exact .inr hleast
  · refine .inl ?_
    rw [← Nat.pow_add, show 52 + k = m.log2 by omega]
    exact Nat.log2_self_le hm.ne'

/-- A finite double on one side of the exact number is on that side of the rounded one. -/
theorem roundedQuotient_monotone {b : UnpackedFloat} (hb : Canonical b) (hfinite : b.isFinite = true) :
    ((m * 2 ^ e : ℚ) ≤ |rationalOf b| → (roundedQuotient m k * 2 ^ t : ℚ) ≤ |rationalOf b|) ∧
      (|rationalOf b| ≤ (m * 2 ^ e : ℚ) → |rationalOf b| ≤ (roundedQuotient m k * 2 ^ t : ℚ)) := by
  cases b with
  | notANumber | infinity s => cases hfinite
  | zero s =>
    have hpos := exact_pos hm e
    refine ⟨fun h => absurd h (by simpa [rationalOf] using hpos), fun _ => ?_⟩
    simp only [rationalOf, abs_zero]
    positivity
  | finite s n f hn =>
    rw [abs_rationalOf_finite]
    obtain ⟨hhigh, hmin, -, -⟩ := hb
    by_cases hexponent : f < t
    · -- such a double is less than all numbers of 53 bits with the larger exponent
      have hnormal := (normal_or_least hm ht hk).resolve_right (by omega)
      have hexact : ((2 ^ 52 : Nat) * 2 ^ t : ℚ) ≤ m * 2 ^ e := by
        rw [hk]
        exact (le_exact_iff ..).2 hnormal
      have hlt := (exact_lt_of_exponent_lt hhigh le_rfl hexponent).trans_le hexact
      exact ⟨fun h => absurd h hlt.not_ge, fun _ =>
        (exact_lt_of_exponent_lt hhigh (le_roundedQuotient hnormal) hexponent).le⟩
    · -- such a double is a whole number in units of the last place
      obtain ⟨j, hj⟩ : ∃ j : Nat, f = t + j := ⟨(f - t).toNat, by omega⟩
      have hunits : f = e + (k + j : Nat) := by omega
      rw [hj, exact_le_iff, le_exact_iff, ← hj, hunits, exact_le_iff, le_exact_iff, Nat.pow_add,
        Nat.mul_comm (2 ^ k), ← Nat.mul_assoc]
      exact ⟨roundedQuotient_le, le_roundedQuotient⟩

/-- Rounding keeps a number on its side of every finite double. -/
theorem roundedFrom_roundWithAccuracy (s : Sign) : RoundedFrom (m * 2 ^ e)
    (UnpackedFloat.unpack Format.binary64 (UnpackedFloat.pack Format.binary64
      (roundWithAccuracy Format.binary64 s m e .exact))) := by
  generalize hz : UnpackedFloat.unpack Format.binary64 _ = z
  have hnumber : z.isFinite = true ∧ |rationalOf z| = roundedQuotient m k * 2 ^ t ∨
      z = .infinity s ∧ (2 ^ 1024 : ℚ) ≤ roundedQuotient m k * 2 ^ t := by
    rw [← hz]
    rcases roundWithAccuracy_cases s ht hk with ⟨hzero, heq⟩ | ⟨hpos, hhigh, heq⟩ | ⟨hcarry, heq⟩ <;> rw [heq]
    · rw [unpack_pack (show Canonical (.zero s) from trivial), hzero]
      exact .inl ⟨rfl, by simp [rationalOf]⟩
    · rcases unpack_pack_or_infinity s hpos hhigh (by omega)
        ((normal_or_least hm ht hk).imp_left le_roundedQuotient) with heq | hinfinity
      · rw [heq, abs_rationalOf_finite]
        exact .inl ⟨rfl, rfl⟩
      · exact .inr hinfinity
    · have hvalue : ((2 ^ 52 : Nat) * 2 ^ (t + 1) : ℚ) = roundedQuotient m k * 2 ^ t := by
        rw [hcarry, zpow_add_one₀ two_ne_zero]
        push_cast
        ring
      rw [← hvalue]
      rcases unpack_pack_or_infinity s (m := 2 ^ 52) (e := t + 1) (by decide) (by decide) (by omega) (.inl le_rfl) with
        heq | hinfinity
      · rw [heq, abs_rationalOf_finite]
        exact .inl ⟨rfl, rfl⟩
      · exact .inr hinfinity
  rcases hnumber with ⟨hfinite, hvalue⟩ | ⟨rfl, hlarge⟩
  · exact
      { not_nan := by
          rintro rfl
          cases hfinite
        le := fun hb hb' h => ⟨hfinite, hvalue ▸ (roundedQuotient_monotone hm ht hk hb hb').1 h⟩
        ge := fun hb hb' h _ => hvalue ▸ (roundedQuotient_monotone hm ht hk hb hb').2 h }
  · exact
      { not_nan := by
          intro hnan
          cases hnan
        le := fun hb hb' h => absurd ((roundedQuotient_monotone hm ht hk hb hb').1 h)
          ((exact_lt_of_canonical hb).trans_le hlarge).not_ge
        ge := by
          intro _ _ _ _ hfinite
          cases hfinite }

end

/-! ## Products -/

/-- The exponents of canonical factors have room for the shift of their product. -/
theorem exists_shift {s s' : Sign} {m m' : Nat} {e e' : Int} {hm : 0 < m} {hm' : 0 < m'}
    (h : Canonical (.finite s m e hm)) (h' : Canonical (.finite s' m' e' hm')) :
    ∃ k : Nat, max ((m * m').log2 + (e + e') - 52) (-1074) = e + e' + k := by
  obtain ⟨-, -, -, hnormal⟩ := h
  obtain ⟨-, -, -, hnormal'⟩ := h'
  have hlog (hle : 2 ^ 52 ≤ m * m') : 52 ≤ (m * m').log2 := (Nat.le_log2 (by positivity)).2 hle
  have hroom : e + e' ≤ max ((m * m').log2 + (e + e') - 52) (-1074) := by
    rcases hnormal with hnormal | rfl
    · have := hlog (hnormal.trans (Nat.le_mul_of_pos_right m hm'))
      omega
    · rcases hnormal' with hnormal' | rfl
      · have := hlog (hnormal'.trans (Nat.le_mul_of_pos_left m' hm))
        omega
      · omega
  exact ⟨(max ((m * m').log2 + (e + e') - 52) (-1074) - (e + e')).toNat, by omega⟩

/-- **A product of finite doubles is rounded from the product of their numbers.** -/
theorem roundedFrom_mul {f g : UnpackedFloat} (hf : Canonical f) (hg : Canonical g) (hf' : f.isFinite = true)
    (hg' : g.isFinite = true) : RoundedFrom |rationalOf f * rationalOf g|
      (UnpackedFloat.unpack Format.binary64 (UnpackedFloat.pack Format.binary64
        (UnpackedFloat.mul Format.binary64 f g))) := by
  have hzero (s : Sign) : RoundedFrom |0| (UnpackedFloat.unpack Format.binary64
      (UnpackedFloat.pack Format.binary64 (.zero s))) := by
    rw [unpack_pack (show Canonical (.zero s) from trivial), abs_zero]
    exact roundedFrom_zero s
  cases f with
  | notANumber | infinity s => cases hf'
  | zero s =>
    rw [show rationalOf (.zero s) = 0 from rfl, zero_mul]
    cases g with
    | notANumber | infinity t => cases hg'
    | zero t | finite t m' e' hm' => exact hzero (s * t)
  | finite s m e hm =>
    cases g with
    | notANumber | infinity t => cases hg'
    | zero t =>
      rw [show rationalOf (.zero t) = 0 from rfl, mul_zero]
      exact hzero (s * t)
    | finite t m' e' hm' =>
      have hproduct : |rationalOf (.finite s m e hm) * rationalOf (.finite t m' e' hm')| =
          (m * m' : Nat) * 2 ^ (e + e') := by
        rw [abs_mul, abs_rationalOf_finite, abs_rationalOf_finite, zpow_add₀ two_ne_zero]
        push_cast
        ring
      obtain ⟨k, hk⟩ := exists_shift hf hg
      rw [hproduct]
      exact roundedFrom_roundWithAccuracy (Nat.mul_pos hm hm') rfl hk (s * t)

end Formulary
