import Formulary.Proofs.Numeric.Values
import Formulary.Expr.Value

/-!
# Extremes of a list of doubles

The larger and the smaller of two doubles is one of them, bounds both, and is a NaN only if both are
(`Extremum.pick_eq_or`, `Extremum.bounds_pick`). So a left fold over a list ends with an extreme of its values
(`isExtreme_among`), and any two extremes of the same values are the same number (`IsExtreme.sameNumber`).
-/

namespace Formulary

namespace Extremum

/-- Whether a value bounds another one on its side. -/
def Bounds : Extremum → Float → Float → Prop
  | .max, x, v => v ≤ x
  | .min, x, v => x ≤ v

section
variable {side : Extremum} {x y z v : Float}

theorem Bounds.not_isNaN (h : side.Bounds x v) : x.isNaN = false := by
  cases side with
  | max => exact (le_iff_orderValue.1 h).2.1
  | min => exact (le_iff_orderValue.1 h).1

theorem bounds_refl (side : Extremum) (h : x.isNaN = false) : side.Bounds x x := by
  cases side <;> exact le_refl_of_not_isNaN h

theorem Bounds.trans (hxy : side.Bounds x y) (hyz : side.Bounds y z) : side.Bounds x z := by
  cases side with
  | max => exact le_trans_float hyz hxy
  | min => exact le_trans_float hxy hyz

theorem Bounds.sameNumber (hxy : side.Bounds x y) (hyx : side.Bounds y x) : SameNumber x y := by
  cases side with
  | max => exact sameNumber_of_le_of_le hyx hxy
  | min => exact sameNumber_of_le_of_le hxy hyx

/-! ## Two values -/

/-- A NaN on the left is ignored. -/
theorem pick_of_isNaN (side : Extremum) (h : x.isNaN = true) : side.pick x v = v := by
  cases side <;> exact if_pos h

theorem pick_eq_or (side : Extremum) (x v : Float) : side.pick x v = x ∨ side.pick x v = v := by
  cases side <;> simp only [pick, larger, smaller] <;> split_ifs <;> simp

/-- A NaN on the right is ignored too. -/
theorem pick_of_isNaN_right (side : Extremum) (hx : x.isNaN = false) (hv : v.isNaN = true) : side.pick x v = x := by
  have hlt : ¬ x < v ∧ ¬ v < x := by
    simp only [lt_iff_orderValue, hv]
    simp
  cases side with
  | max => simp only [pick, larger, hx, if_neg hlt.1, Bool.false_eq_true, if_false]
  | min => simp only [pick, smaller, hx, if_neg hlt.2, Bool.false_eq_true, if_false]

/-- The value that is picked of two bounds both of them. -/
theorem bounds_pick_of_not_isNaN (side : Extremum) (hx : x.isNaN = false) (hv : v.isNaN = false) :
    side.Bounds (side.pick x v) x ∧ side.Bounds (side.pick x v) v := by
  cases side with
  | max =>
    simp only [pick, larger, hx, Bool.false_eq_true, if_false, Bounds]
    split
    · next hlt => exact ⟨le_of_lt_float hlt, le_refl_of_not_isNaN hv⟩
    · next hlt => exact ⟨le_refl_of_not_isNaN hx, (not_lt_iff_le hx hv).1 hlt⟩
  | min =>
    simp only [pick, smaller, hx, Bool.false_eq_true, if_false, Bounds]
    split
    · next hlt => exact ⟨le_of_lt_float hlt, le_refl_of_not_isNaN hv⟩
    · next hlt => exact ⟨le_refl_of_not_isNaN hx, (not_lt_iff_le hv hx).1 hlt⟩

/-- The value that is picked of two bounds those of them that are no NaN. -/
theorem bounds_pick (side : Extremum) (x v : Float) :
    (x.isNaN = false → side.Bounds (side.pick x v) x) ∧ (v.isNaN = false → side.Bounds (side.pick x v) v) := by
  rcases hx : x.isNaN with _ | _
  · rcases hv : v.isNaN with _ | _
    · obtain ⟨hboundsx, hboundsv⟩ := bounds_pick_of_not_isNaN side hx hv
      exact ⟨fun _ => hboundsx, fun _ => hboundsv⟩
    · rw [pick_of_isNaN_right side hx hv]
      exact ⟨fun _ => bounds_refl side hx, nofun⟩
  · rw [pick_of_isNaN side hx]
    exact ⟨nofun, fun hv => bounds_refl side hv⟩

end

/-! ## Lists of values -/

/-- A value of a list that bounds all those of its values that are no NaN. -/
structure IsExtreme (side : Extremum) (values : List Float) (x : Float) : Prop where
  mem : x ∈ values
  bounds : ∀ v ∈ values, v.isNaN = false → side.Bounds x v

section
variable {side : Extremum} {values others before inner after : List Float} {x y : Float}

theorem isExtreme_singleton (side : Extremum) (x : Float) : side.IsExtreme [x] x where
  mem := List.mem_singleton_self x
  bounds := by
    intro v hv hnan
    obtain rfl := List.mem_singleton.1 hv
    exact bounds_refl side hnan

theorem isExtreme_pick (side : Extremum) (x v : Float) : side.IsExtreme [x, v] (side.pick x v) where
  mem := by simpa using side.pick_eq_or x v
  bounds := by
    obtain ⟨hx, hv⟩ := bounds_pick side x v
    exact List.forall_mem_cons.2 ⟨hx, List.forall_mem_singleton.2 hv⟩

/-- An extreme is a NaN only if all values are. -/
theorem IsExtreme.all_isNaN (h : side.IsExtreme values x) (hx : x.isNaN = true) : ∀ v ∈ values, v.isNaN = true := by
  intro v hv
  by_contra hnan
  have := (h.bounds v hv (by simpa using hnan)).not_isNaN
  rw [hx] at this
  cases this

/-- It depends on the values only, not on their order. -/
theorem IsExtreme.congr (h : side.IsExtreme values x) (hmem : ∀ v, v ∈ values ↔ v ∈ others) :
    side.IsExtreme others x where
  mem := (hmem x).1 h.mem
  bounds v hv := h.bounds v ((hmem v).2 hv)

/-- Any two extremes are the same number. -/
theorem IsExtreme.sameNumber (hx : side.IsExtreme values x) (hy : side.IsExtreme values y) : SameNumber x y := by
  by_cases hnan : x.isNaN = true
  · exact .inl ⟨hnan, hx.all_isNaN hnan y hy.mem⟩
  · have hnan' : ¬ y.isNaN = true := by
      intro hy'
      exact hnan (hy.all_isNaN hy' x hx.mem)
    exact (hx.bounds y hy.mem (by simpa using hnan')).sameNumber (hy.bounds x hx.mem (by simpa using hnan))

/-- In a list, an extreme of some values stands for all of them. -/
theorem IsExtreme.splice (hx : side.IsExtreme (before ++ y :: after) x) (hy : side.IsExtreme inner y) :
    side.IsExtreme (before ++ inner ++ after) x where
  mem := by
    have hmem := hx.mem
    rw [List.mem_append, List.mem_cons] at hmem
    rw [List.mem_append, List.mem_append]
    rcases hmem with hmem | rfl | hmem
    · exact .inl (.inl hmem)
    · exact .inl (.inr hy.mem)
    · exact .inr hmem
  bounds := by
    intro v hv hnan
    rw [List.mem_append, List.mem_append] at hv
    rcases hv with (hv | hv) | hv
    · exact hx.bounds v (by simp [hv]) hnan
    · have hbounds := hy.bounds v hv hnan
      exact (hx.bounds y (by simp) hbounds.not_isNaN).trans hbounds
    · exact hx.bounds v (by simp [hv]) hnan

/-- A left fold ends with an extreme of the value it starts from and of all others. -/
theorem isExtreme_foldl (side : Extremum) (first : Float) (rest : List Float) :
    side.IsExtreme (first :: rest) (rest.foldl side.pick first) := by
  induction rest generalizing first with
  | nil => exact isExtreme_singleton side first
  | cons v rest ih =>
    -- the first two values are folded into one, which stands for both of them
    have hfold : side.IsExtreme ([] ++ side.pick first v :: rest) _ := ih (side.pick first v)
    exact hfold.splice (isExtreme_pick side first v)

/-- **The largest or smallest of some values is an extreme of them.** -/
theorem isExtreme_among (side : Extremum) (h : values ≠ []) : side.IsExtreme values (side.among values) := by
  cases values with
  | nil => exact absurd rfl h
  | cons first rest => exact isExtreme_foldl side first rest

/-- The same values in another order have the same extreme. -/
theorem sameNumber_among_of_perm (side : Extremum) (h : values.Perm others) :
    SameNumber (side.among values) (side.among others) := by
  by_cases hnil : values = []
  · subst hnil
    rw [List.nil_perm.1 h]
    exact .refl _
  · have hnil' : others ≠ [] := fun hothers => hnil (List.Perm.eq_nil (hothers ▸ h))
    exact ((isExtreme_among side hnil).congr fun v => h.mem_iff).sameNumber (isExtreme_among side hnil')

/-- Some values, if there are any, may be replaced by their extreme. -/
theorem sameNumber_among_splice (side : Extremum) (before after : List Float) (h : inner ≠ []) :
    SameNumber (side.among (before ++ side.among inner :: after)) (side.among (before ++ inner ++ after)) :=
  ((isExtreme_among side (by simp)).splice (isExtreme_among side h)).sameNumber (isExtreme_among side (by simp [h]))

end

end Extremum

end Formulary
