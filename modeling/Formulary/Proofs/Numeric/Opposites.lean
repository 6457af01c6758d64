import Formulary.Proofs.Numeric.Values

/-!
# Opposites

Doubles are rounded alike on both sides of zero, so the sum of opposites is the opposite of the sum and a difference is
a sum with an opposite, all up to the sign of zero: what cancels out is a positive zero on either side. Where a double
is the same number as another one (`SameNumber`), what they are unpacked into is equal but for that sign (`Alike`), and
no sum or difference tells them apart (`SameNumber.add_left`, `SameNumber.sub_left`).
-/

namespace Formulary

open Float.Model (Format UnpackedFloat)
open Float.Model.UnpackedFloat

/-! ## Unpacked doubles that are equal but for the sign of zero -/

/-- Equal, but for the sign of zero. -/
inductive Alike : UnpackedFloat → UnpackedFloat → Prop where
  | refl (f : UnpackedFloat) : Alike f f
  | zero (s t : Sign) : Alike (.zero s) (.zero t)

namespace Alike
variable {f g : UnpackedFloat}

theorem of_eq (h : f = g) : Alike f g :=
  h ▸ refl f

theorem symm (hfg : Alike f g) : Alike g f := by
  cases hfg with
  | refl => exact refl f
  | zero s t => exact zero t s

theorem neg (hfg : Alike f g) : Alike f.neg g.neg := by
  cases hfg with
  | refl => exact refl _
  | zero s t => exact zero (-s) (-t)

theorem add_left (hfg : Alike f g) (h : UnpackedFloat) :
    Alike (UnpackedFloat.add Format.binary64 f h) (UnpackedFloat.add Format.binary64 g h) := by
  cases hfg with
  | refl => exact refl _
  | zero s t =>
    cases h with
    | zero u =>
      show Alike (if s == u then .zero s else .zero .positive) (if t == u then .zero t else .zero .positive)
      split_ifs <;> exact zero _ _
    | notANumber | infinity | finite => exact refl _

end Alike

/-- Finite mantissas and exponents that are compared as equal are equal. -/
theorem eq_of_compare_eq {e e' : Int} {m m' : Nat} (h : (compare e e').then (compare m m') = .eq) :
    e = e' ∧ m = m' := by
  rw [Ordering.then_eq_eq] at h
  exact ⟨Int.compare_eq_eq.1 h.1, Nat.compare_eq_eq.1 h.2⟩

theorem alike_of_compare_eq {f g : UnpackedFloat} (h : f.compare g = some .eq) : Alike f g := by
  cases f with
  | notANumber => cases h
  | infinity s =>
    cases s <;> cases g with
    | infinity t => cases t <;> first | exact .refl _ | cases h
    | notANumber | zero | finite => cases h
  | zero s =>
    cases g with
    | zero t => exact .zero s t
    | notANumber => cases h
    | infinity t | finite t => cases t <;> cases h
  | finite s m e hm =>
    cases g with
    | notANumber => cases h
    | infinity t => cases s <;> cases t <;> cases h
    | zero => cases s <;> cases h
    | finite t m' e' hm' =>
      cases s <;> cases t
      · have hswap := Option.some.inj h
        rw [Ordering.swap_eq_eq] at hswap
        obtain ⟨rfl, rfl⟩ := eq_of_compare_eq hswap
        exact .refl _
      · cases h
      · cases h
      · obtain ⟨rfl, rfl⟩ := eq_of_compare_eq (Option.some.inj h)
        exact .refl _

theorem sameNumber_iff_alike {x y : Float} : SameNumber x y ↔ Alike x.toModel.unpack y.toModel.unpack := by
  constructor
  · rintro (⟨hx, hy⟩ | h)
    · exact .of_eq ((isNaN_iff.1 hx).trans (isNaN_iff.1 hy).symm)
    · exact alike_of_compare_eq (compare_eq_some_iff.2 (beq_iff_orderValue.1 h))
  · intro h
    have hparts {f g : UnpackedFloat} (h : Alike f g) : f.isNaN = g.isNaN ∧ numberOf f = numberOf g := by
      cases h with
      | refl => exact ⟨rfl, rfl⟩
      | zero s t => exact ⟨rfl, rfl⟩
    obtain ⟨hnan, hnumber⟩ := hparts h
    exact sameNumber_iff.2 ⟨hnan, fun _ => hnumber⟩

/-! ## Opposites of unpacked doubles -/

theorem neg_neg_unpacked (f : UnpackedFloat) : f.neg.neg = f := by
  cases f with
  | notANumber => rfl
  | infinity s | zero s => cases s <;> rfl
  | finite s m e hm => cases s <;> rfl

theorem apply_neg (s : Sign) (n : Int) : (-s).apply n = -s.apply n := by
  cases s with
  | negative => exact (neg_neg n).symm
  | positive => rfl

/-- A difference is a sum with the opposite. -/
theorem sub_eq_add_neg_unpacked (f g : UnpackedFloat) :
    UnpackedFloat.sub Format.binary64 f g = UnpackedFloat.add Format.binary64 f g.neg := by
  cases f <;> cases g
  case finite.finite s m e hm t m' e' hm' =>
    simp only [UnpackedFloat.sub, UnpackedFloat.add, UnpackedFloat.neg, apply_neg, sub_eq_add_neg]
  all_goals rfl

theorem add_comm_unpacked (f g : UnpackedFloat) :
    UnpackedFloat.add Format.binary64 f g = UnpackedFloat.add Format.binary64 g f := by
  cases f <;> cases g
  case infinity.infinity s t => cases s <;> cases t <;> rfl
  case zero.zero s t => cases s <;> cases t <;> rfl
  case finite.finite s m e hm t m' e' hm' =>
    simp only [UnpackedFloat.add]
    rw [min_comm, add_comm]
  all_goals rfl

/-- The sign has no part in rounding. -/
theorem neg_roundWithAccuracy (s : Sign) (m : Nat) (e : Int) (accuracy : Accuracy) :
    (roundWithAccuracy Format.binary64 s m e accuracy).neg = roundWithAccuracy Format.binary64 (-s) m e accuracy := by
  unfold roundWithAccuracy
  simp only
  split_ifs <;> rfl

theorem neg_normalize (n e : Int) : Alike (UnpackedFloat.normalize Format.binary64 n e .positive).neg
    (UnpackedFloat.normalize Format.binary64 (-n) e .positive) := by
  unfold UnpackedFloat.normalize
  rcases lt_trichotomy n 0 with hn | rfl | hn
  · rw [Int.compare_eq_lt.2 hn, Int.compare_eq_gt.2 (show 0 < -n by omega)]
    exact .of_eq (neg_roundWithAccuracy ..)
  · exact .zero _ _
  · rw [Int.compare_eq_gt.2 hn, Int.compare_eq_lt.2 (show -n < 0 by omega)]
    simp only [neg_neg]
    exact .of_eq (neg_roundWithAccuracy ..)

/-- The sum of opposites is the opposite of the sum. -/
theorem neg_add_unpacked (f g : UnpackedFloat) : Alike (UnpackedFloat.add Format.binary64 f g).neg
    (UnpackedFloat.add Format.binary64 f.neg g.neg) := by
  cases f <;> cases g
  case infinity.infinity s t => cases s <;> cases t <;> exact .refl _
  case zero.zero s t => cases s <;> cases t <;> exact .zero _ _
  case finite.finite s m e hm t m' e' hm' =>
    simp only [UnpackedFloat.add, UnpackedFloat.neg, apply_neg, ← neg_add]
    exact neg_normalize ..
  all_goals exact .refl _

/-! ## Packing -/

/-- What is packed as an opposite is unpacked as one. -/
theorem unpack_pack_neg (f : UnpackedFloat) :
    UnpackedFloat.unpack Format.binary64 (UnpackedFloat.pack Format.binary64 f.neg) =
      (UnpackedFloat.unpack Format.binary64 (UnpackedFloat.pack Format.binary64 f)).neg := by
  have hcomponents (s : Sign) (e : BitVec Format.binary64.exponentBits)
      (m : BitVec Format.binary64.mantissaBitsWithoutImplicit) :
      UnpackedFloat.unpack Format.binary64 (packComponents Format.binary64 (-s) e m) =
        (UnpackedFloat.unpack Format.binary64 (packComponents Format.binary64 s e m)).neg := by
    unfold UnpackedFloat.unpack
    simp only [unpackMantissa_packComponents, unpackExponent_packComponents, unpackSign_packComponents,
      Sign.ofBitVec_toBitVec]
    split_ifs <;> rfl
  cases f with
  | notANumber => rfl
  | infinity s => exact hcomponents s _ _
  | zero s => exact hcomponents s _ _
  | finite s m e hm =>
    simp only [UnpackedFloat.neg, UnpackedFloat.pack]
    split_ifs <;> exact hcomponents s _ _

/-- What is equal but for the sign of zero stays so. -/
theorem Alike.unpack_pack {f g : UnpackedFloat} (h : Alike f g) :
    Alike (UnpackedFloat.unpack Format.binary64 (UnpackedFloat.pack Format.binary64 f))
      (UnpackedFloat.unpack Format.binary64 (UnpackedFloat.pack Format.binary64 g)) := by
  cases h with
  | refl => exact .refl _
  | zero s t =>
    rw [Formulary.unpack_pack (show Canonical (.zero s) from trivial),
      Formulary.unpack_pack (show Canonical (.zero t) from trivial)]
    exact .zero s t

/-! ## Sums and differences of doubles -/

section
variable {x y : Float}

theorem unpack_neg (x : Float) : (-x).toModel.unpack = x.toModel.unpack.neg :=
  unpack_pack (canonical_unpack _).neg

/-- Negation is an involution. -/
theorem sameNumber_neg_neg (x : Float) : SameNumber (-(-x)) x := by
  rw [sameNumber_iff_alike, unpack_neg, unpack_neg, neg_neg_unpacked]
  exact .refl _

theorem SameNumber.neg (h : SameNumber x y) : SameNumber (-x) (-y) := by
  rw [sameNumber_iff_alike, unpack_neg, unpack_neg]
  exact (sameNumber_iff_alike.1 h).neg

/-- Sums respect the sameness of numbers. -/
theorem SameNumber.add_left (h : SameNumber x y) (z : Float) : SameNumber (x + z) (y + z) :=
  sameNumber_iff_alike.2 ((sameNumber_iff_alike.1 h).add_left z.toModel.unpack).unpack_pack

/-- So do differences. -/
theorem SameNumber.sub_left (h : SameNumber x y) (z : Float) : SameNumber (x - z) (y - z) := by
  refine sameNumber_iff_alike.2 (Alike.unpack_pack ?_)
  rw [sub_eq_add_neg_unpacked, sub_eq_add_neg_unpacked]
  exact (sameNumber_iff_alike.1 h).add_left _

/-- Differences of two doubles in either order are opposites. -/
theorem alike_neg_sub (x y : Float) : Alike (x - y).toModel.unpack.neg (y - x).toModel.unpack := by
  have hneg := neg_add_unpacked x.toModel.unpack y.toModel.unpack.neg
  rw [neg_neg_unpacked, add_comm_unpacked x.toModel.unpack.neg, ← sub_eq_add_neg_unpacked,
    ← sub_eq_add_neg_unpacked] at hneg
  have hunpacked := hneg.unpack_pack
  rw [unpack_pack_neg] at hunpacked
  exact hunpacked

/-- **A difference is the opposite of the sum with the opposite.** -/
theorem sameNumber_sub (x y : Float) : SameNumber (x - y) (-(-x + y)) := by
  have hsum : (-(-x + y)).toModel.unpack = UnpackedFloat.unpack Format.binary64 (UnpackedFloat.pack Format.binary64
      (UnpackedFloat.add Format.binary64 x.toModel.unpack.neg y.toModel.unpack).neg) := by
    rw [unpack_neg, unpack_pack_neg, ← unpack_neg x]
    rfl
  have hopposite := neg_add_unpacked x.toModel.unpack.neg y.toModel.unpack
  rw [neg_neg_unpacked, ← sub_eq_add_neg_unpacked] at hopposite
  rw [sameNumber_iff_alike, hsum]
  exact hopposite.symm.unpack_pack

end

end Formulary
