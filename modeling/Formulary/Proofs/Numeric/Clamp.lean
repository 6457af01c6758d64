import Formulary.Proofs.Numeric.Extremes

/-!
# Clamps of doubles

A clamp is a cascade of comparisons, its spelling `max(min, min(value, max))` two picks. They come to the same number
(`sameNumber_clamp`) unless the value is a NaN: the clamp keeps that (`clamp_of_isNaN`), the spelling loses it.
-/

namespace Formulary
variable {value other low high : Float}

/-! ## The branches of a clamp -/

/-- Of bounds the wrong way round the lower one wins. -/
theorem clamp_of_inverted (value : Float) (h : high < low) : clamp value low high = low :=
  if_pos (.inl h)

theorem clamp_of_lt (h : value < low) (high : Float) : clamp value low high = low :=
  if_pos (.inr h)

theorem clamp_of_gt (hbounds : ¬ high < low) (hlow : ¬ value < low) (h : high < value) :
    clamp value low high = high := by
  rw [clamp, if_neg (not_or.2 ⟨hbounds, hlow⟩), if_pos h]

/-- A value that is beyond neither bound is kept. -/
theorem clamp_of_within (hbounds : ¬ high < low) (hlow : ¬ value < low) (hhigh : ¬ high < value) :
    clamp value low high = value := by
  rw [clamp, if_neg (not_or.2 ⟨hbounds, hlow⟩), if_neg hhigh]

theorem not_lt_neg_inf (x : Float) : ¬ x < -Float.inf := by
  rw [lt_iff_orderValue, show orderValue (-Float.inf) = ⊥ by decide +kernel]
  exact fun h => not_lt_bot h.2.2

theorem not_inf_lt (x : Float) : ¬ Float.inf < x := by
  rw [lt_iff_orderValue, show orderValue Float.inf = ⊤ by decide +kernel]
  exact fun h => not_top_lt h.2.2

/-- Nothing is below a lower bound that does not constrain. -/
theorem not_lt_of_unconstrained (h : low = -Float.inf ∨ low.isNaN = true) (x : Float) : ¬ x < low := by
  rcases h with rfl | h
  · exact not_lt_neg_inf x
  · exact not_lt_of_isNaN_right h

/-- Nothing is above an upper bound that does not constrain. -/
theorem not_gt_of_unconstrained (h : high = Float.inf ∨ high.isNaN = true) (x : Float) : ¬ high < x := by
  rcases h with rfl | h
  · exact not_inf_lt x
  · exact not_lt_of_isNaN_left h

/-- Bounds that do not constrain keep every value. -/
theorem clamp_of_unconstrained (hlow : low = -Float.inf ∨ low.isNaN = true)
    (hhigh : high = Float.inf ∨ high.isNaN = true) : clamp value low high = value :=
  clamp_of_within (not_lt_of_unconstrained hlow high) (not_lt_of_unconstrained hlow value)
    (not_gt_of_unconstrained hhigh value)

/-- What a clamp can do with a value. -/
theorem clamp_cases (value low high : Float) :
    (high < low ∨ value < low) ∧ clamp value low high = low ∨
      ¬ high < low ∧ ¬ value < low ∧ high < value ∧ clamp value low high = high ∨
      ¬ high < low ∧ ¬ value < low ∧ ¬ high < value ∧ clamp value low high = value := by
  by_cases hbounds : high < low
  · exact .inl ⟨.inl hbounds, clamp_of_inverted value hbounds⟩
  by_cases hlow : value < low
  · exact .inl ⟨.inr hlow, clamp_of_lt hlow high⟩
  by_cases hhigh : high < value
  · exact .inr (.inl ⟨hbounds, hlow, hhigh, clamp_of_gt hbounds hlow hhigh⟩)
  · exact .inr (.inr ⟨hbounds, hlow, hhigh, clamp_of_within hbounds hlow hhigh⟩)

/-- A NaN is kept. -/
theorem clamp_of_isNaN (h : value.isNaN = true) (hbounds : ¬ high < low) : clamp value low high = value :=
  clamp_of_within hbounds (not_lt_of_isNaN_left h) (not_lt_of_isNaN_right h)

/-- To clamp once more changes nothing. -/
theorem clamp_clamp (value low high : Float) : clamp (clamp value low high) low high = clamp value low high := by
  rcases clamp_cases value low high with ⟨-, h⟩ | ⟨hbounds, -, -, h⟩ | ⟨-, -, -, h⟩
  · rw [h]
    by_cases hbounds : high < low
    · exact clamp_of_inverted low hbounds
    · exact clamp_of_within hbounds (not_lt_self low) hbounds
  · rw [h]
    exact clamp_of_within hbounds hbounds (not_lt_self high)
  · rw [h, h]

/-- A clamped value is within its bounds. -/
theorem clamp_within (hvalue : value.isNaN = false) (h : low ≤ high) :
    low ≤ clamp value low high ∧ clamp value low high ≤ high := by
  obtain ⟨hlow, hhigh, -⟩ := le_iff_orderValue.1 h
  rcases clamp_cases value low high with ⟨-, heq⟩ | ⟨-, -, -, heq⟩ | ⟨-, hge, hle, heq⟩
  · rw [heq]
    exact ⟨le_refl_of_not_isNaN hlow, h⟩
  · rw [heq]
    exact ⟨h, le_refl_of_not_isNaN hhigh⟩
  · rw [heq]
    exact ⟨(not_lt_iff_le hvalue hlow).1 hge, (not_lt_iff_le hhigh hvalue).1 hle⟩

/-- A larger value has the larger clamp. -/
theorem clamp_le_clamp (h : value ≤ other) (low high : Float) : clamp value low high ≤ clamp other low high := by
  obtain ⟨hvalue, hother, -⟩ := le_iff_orderValue.1 h
  rcases clamp_cases value low high with ⟨hcase, heq⟩ | ⟨hbounds, hlow, hhigh, heq⟩ | ⟨hbounds, hlow, hhigh, heq⟩ <;>
    rw [heq]
  · have hnan : low.isNaN = false := by
      rcases hcase with hlt | hlt <;> exact (lt_iff_orderValue.1 hlt).2.1
    rcases clamp_cases other low high with ⟨-, heq⟩ | ⟨hbounds, -, hlt, heq⟩ | ⟨-, hge, -, heq⟩ <;> rw [heq]
    · exact le_refl_of_not_isNaN hnan
    · exact (not_lt_iff_le (lt_iff_orderValue.1 hlt).1 hnan).1 hbounds
    · exact (not_lt_iff_le hother hnan).1 hge
  · have hlarge := lt_of_lt_of_le_float hhigh h
    rcases clamp_cases other low high with ⟨hcase, -⟩ | ⟨-, -, -, heq⟩ | ⟨-, -, hle, -⟩
    · exact absurd (lt_of_le_of_lt_float h (hcase.resolve_left hbounds)) hlow
    · rw [heq]
      exact le_refl_of_not_isNaN (lt_iff_orderValue.1 hhigh).1
    · exact absurd hlarge hle
  · rcases clamp_cases other low high with ⟨hcase, -⟩ | ⟨-, -, hlt, heq⟩ | ⟨-, -, -, heq⟩
    · exact absurd (lt_of_le_of_lt_float h (hcase.resolve_left hbounds)) hlow
    · rw [heq]
      exact (not_lt_iff_le (lt_iff_orderValue.1 hlt).1 hvalue).1 hhigh
    · rw [heq]
      exact h

/-! ## The spelling -/

theorem smaller_of_lt (h : high < value) : smaller value high = high := by
  rw [smaller, if_pos h, ite_self]

theorem smaller_of_not_lt (hvalue : value.isNaN = false) (h : ¬ high < value) : smaller value high = value := by
  rw [smaller, if_neg h, hvalue, if_neg Bool.false_ne_true]

theorem larger_of_not_lt (hlow : low.isNaN = false) (h : ¬ low < value) : larger low value = low := by
  rw [larger, if_neg h, hlow, if_neg Bool.false_ne_true]

/-- The larger of two values is the second one, up to the sign of zero, if the first one is not beyond it. -/
theorem sameNumber_larger (hvalue : value.isNaN = false) (h : ¬ value < low) : SameNumber value (larger low value) := by
  rw [larger]
  split_ifs with hlow hlt
  · exact .refl value
  · exact .refl value
  · have hnan : low.isNaN = false := by simpa using hlow
    exact sameNumber_of_le_of_le ((not_lt_iff_le hnan hvalue).1 hlt) ((not_lt_iff_le hvalue hnan).1 h)

/-- **A clamp is the larger of its lower bound and of the smaller of its value and its upper bound.** -/
theorem sameNumber_clamp (hvalue : value.isNaN = false) (low high : Float) :
    SameNumber (clamp value low high) (larger low (smaller value high)) := by
  rcases clamp_cases value low high with ⟨hcase, heq⟩ | ⟨hbounds, -, hhigh, heq⟩ | ⟨-, hlow, hhigh, heq⟩ <;> rw [heq]
  · -- the smaller one of value and upper bound is below the lower bound
    have hnan : low.isNaN = false := by
      rcases hcase with hlt | hlt <;> exact (lt_iff_orderValue.1 hlt).2.1
    refine .of_eq (larger_of_not_lt hnan ?_).symm
    by_cases hhigh : high < value
    · rw [smaller_of_lt hhigh]
      rcases hcase with hlt | hlt
      · exact not_lt_of_le_float (le_of_lt_float hlt)
      · exact not_lt_of_le_float (le_trans_float (le_of_lt_float hhigh) (le_of_lt_float hlt))
    · rw [smaller_of_not_lt hvalue hhigh]
      rcases hcase with hlt | hlt
      · have hle := (not_lt_iff_le (lt_iff_orderValue.1 hlt).1 hvalue).1 hhigh
        exact not_lt_of_le_float (le_trans_float hle (le_of_lt_float hlt))
      · exact not_lt_of_le_float (le_of_lt_float hlt)
  · rw [smaller_of_lt hhigh]
    exact sameNumber_larger (lt_iff_orderValue.1 hhigh).1 hbounds
  · rw [smaller_of_not_lt hvalue hhigh]
    exact sameNumber_larger hvalue hlow

end Formulary
