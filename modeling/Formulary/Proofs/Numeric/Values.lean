import Formulary.Proofs.Decimal.Whole

/-!
# The numbers that doubles stand for

A finite double stands for a rational number (`exactValue`), and the infinities stand beyond all of them (`orderValue`).
What is unpacked from bits is in canonical form (`canonical_unpack`), and canonical forms are compared by exponent, then
by mantissa. So doubles are compared by their numbers: `lt_iff_orderValue`, `le_iff_orderValue`, `beq_iff_orderValue`.
-/

namespace Formulary

open Float.Model (Format UnpackedFloat totalExponent)
open Float.Model.UnpackedFloat

/-! ## Canonical form -/

/-- A form in which no finite number is written twice: the mantissa has 53 bits, unless the exponent is the least. -/
def Canonical : UnpackedFloat → Prop
  | .finite _ m e _ => m < 2 ^ 53 ∧ -1074 ≤ e ∧ e ≤ 971 ∧ (2 ^ 52 ≤ m ∨ e = -1074)
  | _ => True

theorem canonical_unpack (b : BitVec Format.binary64.numBits) :
    Canonical (UnpackedFloat.unpack Format.binary64 b) := by
  have hbias : (Format.binary64.exponentBias : Int) = 1023 := rfl
  have hfraction : (unpackMantissa b).toNat < 2 ^ 52 := (unpackMantissa b).isLt
  have hexponent : (unpackExponent b).toNat < 2048 := (unpackExponent b).isLt
  have hmantissa : (1#1 ++ unpackMantissa b).toNat = 2 ^ 52 + (unpackMantissa b).toNat := by
    rw [BitVec.toNat_append, ← Nat.shiftLeft_add_eq_or_of_lt hfraction, Nat.shiftLeft_eq]
    rfl
  unfold UnpackedFloat.unpack
  simp only
  split
  · split <;> trivial
  · next hones =>
    have hne : (unpackExponent b).toNat ≠ 2047 := by
      intro h
      exact hones (BitVec.eq_of_toNat_eq h)
    split
    · next hzero =>
      split
      · trivial
      · rw [hzero, hbias]
        exact ⟨Nat.lt_trans hfraction (by decide), by decide, by decide, .inr rfl⟩
    · next hzero =>
      have hpos : (unpackExponent b).toNat ≠ 0 := by
        intro h
        exact hzero (BitVec.eq_of_toNat_eq h)
      show _ < _ ∧ _
      rw [hmantissa, hbias]
      omega

theorem Canonical.neg {f : UnpackedFloat} (h : Canonical f) : Canonical f.neg := by
  cases f <;> exact h

theorem Canonical.abs {f : UnpackedFloat} (h : Canonical f) : Canonical f.abs := by
  cases f <;> exact h

/-- A subnormal double is unpacked from what it is packed into. -/
theorem unpack_pack_subnormal (s : Sign) {m : Nat} (hm : 0 < m) (hhigh : m < 2 ^ 52) :
    UnpackedFloat.unpack Format.binary64 (UnpackedFloat.pack Format.binary64 (.finite s m (-1074) hm)) =
      .finite s m (-1074) hm := by
  have hlog : ¬ m.log2 + 1 = Format.binary64.mantissaBits := by
    have : m.log2 < 52 := (Nat.log2_lt (Nat.ne_of_gt hm)).2 hhigh
    have hbits : Format.binary64.mantissaBits = 53 := rfl
    omega
  have hfraction : (BitVec.ofNat 52 m).toNat = m := by
    rw [BitVec.toNat_ofNat, Nat.mod_eq_of_lt hhigh]
  have hne : BitVec.ofNat 52 m ≠ 0#52 := by
    intro h
    have := congrArg BitVec.toNat h
    rw [hfraction] at this
    exact absurd this (Nat.ne_of_gt hm)
  unfold UnpackedFloat.pack
  simp only
  rw [if_neg (by decide), if_neg hlog, UnpackedFloat.unpack]
  simp only [unpackMantissa_packComponents, unpackExponent_packComponents, unpackSign_packComponents,
    Sign.ofBitVec_toBitVec]
  rw [if_neg (by decide), if_pos trivial, dif_neg hne]
  simp only [hfraction]
  rfl

/-- What is canonical is unpacked from what it is packed into. -/
theorem unpack_pack {f : UnpackedFloat} (h : Canonical f) :
    UnpackedFloat.unpack Format.binary64 (UnpackedFloat.pack Format.binary64 f) = f := by
  cases f with
  | infinity s => cases s <;> rfl
  | notANumber => rfl
  | zero s => exact unpack_packedZero
  | finite s m e hm =>
    obtain ⟨hhigh, hmin, hmax, hnormal⟩ := h
    rcases Nat.lt_or_ge m (2 ^ 52) with hlow | hlow
    · obtain rfl : e = -1074 := by omega
      exact unpack_pack_subnormal s hm hlow
    · exact unpack_pack_normal s hm hlow hhigh hmin hmax

/-! ## Numbers -/

/-- The rational number that a finite unpacked double stands for, and zero for the others. -/
def rationalOf : UnpackedFloat → ℚ
  | .finite s m e _ => s.apply m * 2 ^ e
  | _ => 0

/-- The number that an unpacked double stands for among the rational numbers and the two infinities. -/
def numberOf : UnpackedFloat → WithBot (WithTop ℚ)
  | .infinity .negative => ⊥
  | .infinity .positive => ((⊤ : WithTop ℚ) : WithBot (WithTop ℚ))
  | f => ((rationalOf f : WithTop ℚ) : WithBot (WithTop ℚ))

/-- The rational number that a finite double stands for. -/
def exactValue (x : Float) : ℚ :=
  rationalOf x.toModel.unpack

/-- The number that a double stands for, if it is no NaN. -/
def orderValue (x : Float) : WithBot (WithTop ℚ) :=
  numberOf x.toModel.unpack

/-! ## Order -/

/-- A number with a smaller exponent is smaller than one whose mantissa has all its 53 bits. -/
theorem exact_lt_of_exponent_lt {m m' : Nat} {e e' : Int} (hm : m < 2 ^ 53) (hm' : 2 ^ 52 ≤ m') (he : e < e') :
    (m * 2 ^ e : ℚ) < m' * 2 ^ e' := by
  calc (m * 2 ^ e : ℚ) < 2 ^ 53 * 2 ^ e := by
        gcongr
        exact_mod_cast hm
    _ = 2 ^ 52 * 2 ^ (e + 1) := by
        rw [zpow_add_one₀ two_ne_zero]
        ring
    _ ≤ m' * 2 ^ e' := by
        gcongr
        · exact_mod_cast hm'
        · norm_num
        · omega

/-- Canonical mantissas and exponents are in the order of the numbers. -/
theorem compares_of_canonical {m₁ m₂ : Nat} {e₁ e₂ : Int} (h₁ : m₁ < 2 ^ 53) (h₂ : m₂ < 2 ^ 53)
    (hnormal₁ : 2 ^ 52 ≤ m₁ ∨ e₁ ≤ e₂) (hnormal₂ : 2 ^ 52 ≤ m₂ ∨ e₂ ≤ e₁) :
    ((compare e₁ e₂).then (compare m₁ m₂)).Compares (m₁ * 2 ^ e₁ : ℚ) (m₂ * 2 ^ e₂) := by
  rcases lt_trichotomy e₁ e₂ with h | h | h
  · rw [compare_lt_iff_lt.2 h]
    exact exact_lt_of_exponent_lt h₁ (hnormal₂.resolve_right (by omega)) h
  · subst h
    rw [compare_eq_iff_eq.2 rfl, Ordering.eq_then]
    have hpos : (0 : ℚ) < 2 ^ e₁ := by positivity
    rcases lt_trichotomy m₁ m₂ with hm | hm | hm
    · rw [compare_lt_iff_lt.2 hm]
      exact mul_lt_mul_of_pos_right (by exact_mod_cast hm) hpos
    · rw [compare_eq_iff_eq.2 hm, hm]
      exact rfl
    · rw [compare_gt_iff_gt.2 hm]
      exact mul_lt_mul_of_pos_right (by exact_mod_cast hm) hpos
  · rw [compare_gt_iff_gt.2 h]
    exact exact_lt_of_exponent_lt h₂ (hnormal₁.resolve_right (by omega)) h

theorem Canonical.compares {s₁ s₂ : Sign} {m₁ m₂ : Nat} {e₁ e₂ : Int} {hm₁ : 0 < m₁} {hm₂ : 0 < m₂}
    (h₁ : Canonical (.finite s₁ m₁ e₁ hm₁)) (h₂ : Canonical (.finite s₂ m₂ e₂ hm₂)) :
    ((compare e₁ e₂).then (compare m₁ m₂)).Compares (m₁ * 2 ^ e₁ : ℚ) (m₂ * 2 ^ e₂) := by
  obtain ⟨hhigh₁, hmin₁, -, hnormal₁⟩ := h₁
  obtain ⟨hhigh₂, hmin₂, -, hnormal₂⟩ := h₂
  exact compares_of_canonical hhigh₁ hhigh₂ (by omega) (by omega)

theorem compares_coe {o : Ordering} {a b : ℚ} (h : o.Compares a b) :
    o.Compares ((a : WithTop ℚ) : WithBot (WithTop ℚ)) ((b : WithTop ℚ) : WithBot (WithTop ℚ)) := by
  cases o with
  | lt => exact WithBot.coe_lt_coe.2 (WithTop.coe_lt_coe.2 h)
  | eq => exact congrArg _ (congrArg _ h)
  | gt => exact WithBot.coe_lt_coe.2 (WithTop.coe_lt_coe.2 h)

theorem compares_neg {o : Ordering} {a b : ℚ} (h : o.Compares a b) : o.swap.Compares (-a) (-b) := by
  cases o with
  | lt => exact neg_lt_neg h
  | eq => exact congrArg _ h
  | gt => exact neg_lt_neg h

theorem rationalOf_positive {m : Nat} {e : Int} (hm : 0 < m) : rationalOf (.finite .positive m e hm) = m * 2 ^ e := rfl

theorem rationalOf_negative {m : Nat} {e : Int} (hm : 0 < m) :
    rationalOf (.finite .negative m e hm) = -(m * 2 ^ e) := by
  simp [rationalOf, Sign.apply]

theorem exact_pos {m : Nat} (hm : 0 < m) (e : Int) : (0 : ℚ) < m * 2 ^ e := by
  positivity

/-- Unpacked doubles that are finite are compared by their rational numbers. -/
theorem exists_compare_of_isFinite {f g : UnpackedFloat} (hf : Canonical f) (hg : Canonical g)
    (hf' : f.isFinite = true) (hg' : g.isFinite = true) :
    ∃ o, f.compare g = some o ∧ o.Compares (rationalOf f) (rationalOf g) := by
  cases f with
  | notANumber | infinity s => cases hf'
  | zero s =>
    cases g with
    | notANumber | infinity t => cases hg'
    | zero t => exact ⟨.eq, rfl, rfl⟩
    | finite t m e hm =>
      have hpos := exact_pos hm e
      cases t with
      | negative =>
        refine ⟨.gt, rfl, ?_⟩
        rw [rationalOf_negative hm]
        exact neg_neg_of_pos hpos
      | positive => exact ⟨.lt, rfl, hpos⟩
  | finite s m e hm =>
    have hpos := exact_pos hm e
    cases g with
    | notANumber | infinity t => cases hg'
    | zero t =>
      cases s with
      | negative =>
        refine ⟨.lt, rfl, ?_⟩
        rw [rationalOf_negative hm]
        exact neg_neg_of_pos hpos
      | positive => exact ⟨.gt, rfl, hpos⟩
    | finite t m' e' hm' =>
      have hpos' := exact_pos hm' e'
      have hcompares := hf.compares hg
      cases s <;> cases t <;> simp only [rationalOf_negative, rationalOf_positive]
      · exact ⟨_, rfl, compares_neg hcompares⟩
      · exact ⟨.lt, rfl, (neg_neg_of_pos hpos).trans hpos'⟩
      · exact ⟨.gt, rfl, (neg_neg_of_pos hpos').trans hpos⟩
      · exact ⟨_, rfl, hcompares⟩

theorem numberOf_of_isFinite {f : UnpackedFloat} (h : f.isFinite = true) :
    numberOf f = ((rationalOf f : WithTop ℚ) : WithBot (WithTop ℚ)) := by
  cases f with
  | notANumber | infinity s => cases h
  | zero s | finite s m e hm => rfl

/-- An unpacked double that is no NaN is finite or beyond all those that are. -/
theorem isFinite_or_infinity {f : UnpackedFloat} (h : f ≠ .notANumber) :
    f.isFinite = true ∨ f = .infinity .negative ∨ f = .infinity .positive := by
  cases f with
  | notANumber => exact absurd rfl h
  | infinity s => cases s <;> simp
  | zero s | finite s m e hm => exact .inl rfl

theorem compare_infinity_left {f : UnpackedFloat} (h : f.isFinite = true) :
    (infinity .negative).compare f = some .lt ∧ (infinity .positive).compare f = some .gt := by
  cases f with
  | notANumber | infinity s => cases h
  | zero s | finite s m e hm => exact ⟨rfl, rfl⟩

theorem compare_infinity_right {f : UnpackedFloat} (h : f.isFinite = true) :
    f.compare (infinity .negative) = some .gt ∧ f.compare (infinity .positive) = some .lt := by
  cases f with
  | notANumber | infinity s => cases h
  | zero s => exact ⟨rfl, rfl⟩
  | finite s m e hm => cases s <;> exact ⟨rfl, rfl⟩

/-- Unpacked doubles that are no NaN are compared by their numbers. -/
theorem exists_compare {f g : UnpackedFloat} (hf : Canonical f) (hg : Canonical g) (hf' : f ≠ .notANumber)
    (hg' : g ≠ .notANumber) : ∃ o, f.compare g = some o ∧ o.Compares (numberOf f) (numberOf g) := by
  have hbot (a : WithTop ℚ) : (⊥ : WithBot (WithTop ℚ)) < a := WithBot.bot_lt_coe a
  have htop (q : ℚ) : ((q : WithTop ℚ) : WithBot (WithTop ℚ)) < ((⊤ : WithTop ℚ) : WithBot (WithTop ℚ)) :=
    WithBot.coe_lt_coe.2 (WithTop.coe_lt_top q)
  rcases isFinite_or_infinity hf' with hfinite | rfl | rfl
  · rcases isFinite_or_infinity hg' with hfinite' | rfl | rfl <;> rw [numberOf_of_isFinite hfinite]
    · obtain ⟨o, ho, hcompares⟩ := exists_compare_of_isFinite hf hg hfinite hfinite'
      rw [numberOf_of_isFinite hfinite']
      exact ⟨o, ho, compares_coe hcompares⟩
    · exact ⟨.gt, (compare_infinity_right hfinite).1, hbot _⟩
    · exact ⟨.lt, (compare_infinity_right hfinite).2, htop _⟩
  · rcases isFinite_or_infinity hg' with hfinite' | rfl | rfl
    · rw [numberOf_of_isFinite hfinite']
      exact ⟨.lt, (compare_infinity_left hfinite').1, hbot _⟩
    · exact ⟨.eq, rfl, rfl⟩
    · exact ⟨.lt, rfl, hbot _⟩
  · rcases isFinite_or_infinity hg' with hfinite' | rfl | rfl
    · rw [numberOf_of_isFinite hfinite']
      exact ⟨.gt, (compare_infinity_left hfinite').2, htop _⟩
    · exact ⟨.gt, rfl, hbot _⟩
    · exact ⟨.eq, rfl, rfl⟩

/-! ## The order of doubles -/

section
variable {x y : Float}

theorem isNaN_eq_false_iff : x.isNaN = false ↔ x.toModel.unpack ≠ .notANumber := by
  rw [← Bool.not_eq_true]
  exact not_congr isNaN_iff

/-- A comparison of doubles is one of their numbers, and fails if one of them is a NaN. -/
theorem compare_eq_some_iff {o : Ordering} : x.toModel.unpack.compare y.toModel.unpack = some o ↔
    x.isNaN = false ∧ y.isNaN = false ∧ o.Compares (orderValue x) (orderValue y) := by
  rw [isNaN_eq_false_iff, isNaN_eq_false_iff]
  by_cases hx : x.toModel.unpack = .notANumber
  · rw [hx]
    simp [UnpackedFloat.compare]
  by_cases hy : y.toModel.unpack = .notANumber
  · rw [hy]
    cases x.toModel.unpack <;> simp [UnpackedFloat.compare]
  obtain ⟨o', ho', hcompares⟩ := exists_compare (canonical_unpack _) (canonical_unpack _) hx hy
  have hcompares' : o'.Compares (orderValue x) (orderValue y) := hcompares
  rw [← compare_iff] at hcompares'
  rw [show x.toModel.unpack.compare y.toModel.unpack = some o' from ho', ← compare_iff, hcompares']
  simp [hx, hy]

theorem lt_iff_orderValue : x < y ↔ x.isNaN = false ∧ y.isNaN = false ∧ orderValue x < orderValue y := by
  have hlt : x < y ↔ x.toModel.unpack.compare y.toModel.unpack = some .lt := by
    show decide _ = true ↔ _
    rw [decide_eq_true_iff]
    exact beq_iff_eq
  rw [hlt, compare_eq_some_iff]
  rfl

theorem beq_iff_orderValue :
    (x == y) = true ↔ x.isNaN = false ∧ y.isNaN = false ∧ orderValue x = orderValue y := by
  have hbeq : (x == y) = true ↔ x.toModel.unpack.compare y.toModel.unpack = some .eq := by
    show (UnpackedFloat.compare _ _ == some .eq) = true ↔ _
    exact beq_iff_eq
  rw [hbeq, compare_eq_some_iff]
  rfl

theorem le_iff_orderValue : x ≤ y ↔ x.isNaN = false ∧ y.isNaN = false ∧ orderValue x ≤ orderValue y := by
  have hle : x ≤ y ↔ x.toModel.unpack.compare y.toModel.unpack = some .lt ∨
      x.toModel.unpack.compare y.toModel.unpack = some .eq := by
    rw [le_iff_unpack_le, UnpackedFloat.le]
    cases UnpackedFloat.compare x.toModel.unpack y.toModel.unpack with
    | none => simp
    | some o => cases o <;> simp
  rw [hle, compare_eq_some_iff, compare_eq_some_iff, le_iff_lt_or_eq, and_or_left, and_or_left]
  rfl

theorem le_refl_of_not_isNaN (h : x.isNaN = false) : x ≤ x :=
  le_iff_orderValue.2 ⟨h, h, le_rfl⟩

/-- Of two doubles that are no NaN one is at most the other, or it is the larger one. -/
theorem not_lt_iff_le (hx : x.isNaN = false) (hy : y.isNaN = false) : ¬ x < y ↔ y ≤ x := by
  rw [lt_iff_orderValue, le_iff_orderValue]
  simp only [hx, hy, true_and, not_lt]

theorem le_of_lt_float (h : x < y) : x ≤ y := by
  obtain ⟨hx, hy, hlt⟩ := lt_iff_orderValue.1 h
  exact le_iff_orderValue.2 ⟨hx, hy, hlt.le⟩

theorem le_trans_float {z : Float} (hxy : x ≤ y) (hyz : y ≤ z) : x ≤ z := by
  obtain ⟨hx, -, hxy⟩ := le_iff_orderValue.1 hxy
  obtain ⟨-, hz, hyz⟩ := le_iff_orderValue.1 hyz
  exact le_iff_orderValue.2 ⟨hx, hz, hxy.trans hyz⟩

theorem lt_of_le_of_lt_float {z : Float} (hxy : x ≤ y) (hyz : y < z) : x < z := by
  obtain ⟨hx, -, hxy⟩ := le_iff_orderValue.1 hxy
  obtain ⟨-, hz, hyz⟩ := lt_iff_orderValue.1 hyz
  exact lt_iff_orderValue.2 ⟨hx, hz, hxy.trans_lt hyz⟩

theorem lt_of_lt_of_le_float {z : Float} (hxy : x < y) (hyz : y ≤ z) : x < z := by
  obtain ⟨hx, -, hxy⟩ := lt_iff_orderValue.1 hxy
  obtain ⟨-, hz, hyz⟩ := le_iff_orderValue.1 hyz
  exact lt_iff_orderValue.2 ⟨hx, hz, hxy.trans_le hyz⟩

theorem not_lt_of_le_float (h : x ≤ y) : ¬ y < x := by
  obtain ⟨hx, hy, -⟩ := le_iff_orderValue.1 h
  exact (not_lt_iff_le hy hx).2 h

theorem not_lt_self (x : Float) : ¬ x < x := by
  rw [lt_iff_orderValue]
  exact fun h => lt_irrefl _ h.2.2

theorem not_lt_of_isNaN_left (h : x.isNaN = true) : ¬ x < y := by
  rw [lt_iff_orderValue, h]
  simp

theorem not_lt_of_isNaN_right (h : y.isNaN = true) : ¬ x < y := by
  rw [lt_iff_orderValue, h]
  simp

end

/-! ## The same number -/

/-- Two doubles are the same number: equal up to the sign of zero, or both NaN. -/
def SameNumber (x y : Float) : Prop :=
  x.isNaN = true ∧ y.isNaN = true ∨ (x == y) = true

section
variable {x y z : Float}

theorem sameNumber_iff :
    SameNumber x y ↔ x.isNaN = y.isNaN ∧ (x.isNaN = false → orderValue x = orderValue y) := by
  rw [SameNumber, beq_iff_orderValue]
  cases x.isNaN <;> cases y.isNaN <;> simp

theorem SameNumber.refl (x : Float) : SameNumber x x :=
  sameNumber_iff.2 ⟨rfl, fun _ => rfl⟩

theorem SameNumber.of_eq (h : x = y) : SameNumber x y :=
  h ▸ .refl x

theorem SameNumber.trans (hxy : SameNumber x y) (hyz : SameNumber y z) : SameNumber x z := by
  obtain ⟨hnan, hvalue⟩ := sameNumber_iff.1 hxy
  obtain ⟨hnan', hvalue'⟩ := sameNumber_iff.1 hyz
  exact sameNumber_iff.2 ⟨hnan.trans hnan', fun hx => (hvalue hx).trans (hvalue' (hnan.symm.trans hx))⟩

theorem sameNumber_of_le_of_le (hxy : x ≤ y) (hyx : y ≤ x) : SameNumber x y := by
  obtain ⟨hx, hy, hxy⟩ := le_iff_orderValue.1 hxy
  obtain ⟨-, -, hyx⟩ := le_iff_orderValue.1 hyx
  exact sameNumber_iff.2 ⟨hx.trans hy.symm, fun _ => hxy.antisymm hyx⟩

end

end Formulary
