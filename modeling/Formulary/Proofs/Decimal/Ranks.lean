import Formulary.Decimal.Shortest
import Formulary.Proofs.Decimal.Whole

/-!
# Ranks found again

The decimal that a rank is written as is nearest to the double of that rank and to no other
(`Decimal.nearestRank_shortest`). Candidates are chosen for it; the exact value has it because nothing is rounded; and
zeros that move from the coefficient to the exponent do not change the value.
-/

namespace Formulary

/-! ## Rounding -/

theorem roundHalfEven_mul {k : Nat} (hk : 0 < k) (num den : Nat) :
    roundHalfEven (k * num) (k * den) = roundHalfEven num den := by
  have hcompare : compare (2 * (k * num % (k * den))) (k * den) = compare (2 * (num % den)) den := by
    rw [Nat.mul_mod_mul_left, ← Nat.mul_assoc, Nat.mul_comm 2 k, Nat.mul_assoc]
    rcases Nat.lt_trichotomy (2 * (num % den)) den with h | h | h
    · rw [Nat.compare_eq_lt.2 h, Nat.compare_eq_lt.2 (Nat.mul_lt_mul_of_pos_left h hk)]
    · rw [Nat.compare_eq_eq.2 h, Nat.compare_eq_eq.2 (by rw [h])]
    · rw [Nat.compare_eq_gt.2 h, Nat.compare_eq_gt.2 (Nat.mul_lt_mul_of_pos_left h hk)]
  rw [roundHalfEven, roundHalfEven, hcompare, Nat.mul_div_mul_left _ _ hk]

theorem roundHalfEven_mul_self (m : Nat) {den : Nat} (h : 0 < den) : roundHalfEven (m * den) den = m := by
  rw [roundHalfEven, Nat.mul_mod_left, Nat.mul_div_cancel _ h, Nat.compare_eq_lt.2 h]

theorem rankOfUnits_mul {k : Nat} (hk : 0 < k) (num den : Nat) :
    rankOfUnits (k * num) (k * den) = rankOfUnits num den := by
  rw [rankOfUnits, rankOfUnits, Nat.mul_div_mul_left _ _ hk, Nat.mul_assoc, roundHalfEven_mul hk]

/-- The units of a rank are those of no other. -/
theorem rankOfUnits_unitsOfRank (rank : Nat) : rankOfUnits (unitsOfRank rank) 1 = rank := by
  have hbinade : binade = 2 ^ 52 := rfl
  rw [rankOfUnits, unitsOfRank, Nat.div_one, Nat.one_mul]
  rcases Nat.lt_or_ge rank (2 * binade) with hlow | hhigh
  · have hscale : rank / binade - 1 = 0 := by
      have : rank / binade < 2 := Nat.div_lt_of_lt_mul (by omega)
      omega
    have hlog : rank.log2 - 52 = 0 := by
      have : rank.log2 < 53 := by
        rcases Nat.eq_zero_or_pos rank with rfl | hpos
        · decide
        · exact (Nat.log2_lt (by omega)).2 (by omega)
      omega
    simp only [hscale, Nat.zero_mul, Nat.sub_zero, Nat.pow_eq, Nat.pow_zero, Nat.mul_one, hlog, Nat.zero_add]
    simpa using roundHalfEven_mul_self rank Nat.one_pos
  · generalize hscale : rank / binade - 1 = scale
    have hquotient : rank / binade = scale + 1 := by
      have : 2 ≤ rank / binade := (Nat.le_div_iff_mul_le (by decide)).2 hhigh
      omega
    have hrank := Nat.div_add_mod rank binade
    have hmod : rank % binade < binade := Nat.mod_lt _ (by decide)
    rw [hquotient, Nat.mul_succ, Nat.mul_comm binade] at hrank
    have hlog := log2_of_normal (m := rank - scale * binade) (by omega) (by omega) scale
    simp only [Nat.pow_eq, hlog, Nat.add_sub_cancel_left]
    rw [roundHalfEven_mul_self _ (Nat.two_pow_pos scale)]
    omega

/-! ## Decimals -/

namespace Decimal

/-- The rank nearest to a decimal, however large or small it is. -/
def nearestRank (d : Decimal) : Nat :=
  rankOfUnits (d.coefficient * 10 ^ d.exponent.toNat * unitsOfOne) (10 ^ (-d.exponent).toNat)

theorem nearestRank_of_rank_eq {d : Decimal} {rank : Nat} (h : d.rank = rank) (hpos : 0 < rank)
    (hfinite : rank < rankOfInfinity) : d.nearestRank = rank := by
  unfold Decimal.rank at h
  split at h
  · omega
  split at h
  · omega
  split at h
  · omega
  exact h

/-- A zero at the end of the coefficient may as well stand in the exponent. -/
theorem nearestRank_shift (c : Nat) (e : Int) : nearestRank ⟨10 * c, e⟩ = nearestRank ⟨c, e + 1⟩ := by
  rw [nearestRank, nearestRank]
  rcases Int.lt_or_le e 0 with h | h
  · have h0 : e.toNat = 0 := by omega
    have h1 : (e + 1).toNat = 0 := by omega
    have h2 : (-e).toNat = (-(e + 1)).toNat + 1 := by omega
    simp only [h0, h1, h2, Nat.pow_zero, Nat.mul_one]
    rw [Nat.pow_succ, Nat.mul_comm _ 10, Nat.mul_assoc]
    exact rankOfUnits_mul (by decide) _ _
  · have h0 : (e + 1).toNat = e.toNat + 1 := by omega
    have h1 : (-e).toNat = 0 := by omega
    have h2 : (-(e + 1)).toNat = 0 := by omega
    simp only [h0, h1, h2]
    rw [Nat.pow_succ, Nat.mul_comm 10, Nat.mul_assoc c 10, Nat.mul_comm 10]

theorem nearestRank_strip (fuel : Nat) (d : Decimal) : (strip fuel d).nearestRank = d.nearestRank := by
  induction fuel generalizing d with
  | zero => rfl
  | succ fuel ih =>
    rw [strip]
    split
    · next h =>
      rw [ih, ← nearestRank_shift, Nat.mul_div_cancel' (Nat.dvd_of_mod_eq_zero h)]
    · rfl

/-- What a number of units has in common with a power of two is a power of two. -/
theorem gcd_unitsOfOne (units : Nat) : ∃ k h, units.gcd unitsOfOne = 2 ^ k ∧ unitsOfOne = 2 ^ k * 2 ^ h := by
  unfold unitsOfOne
  generalize 1074 = n
  rw [Nat.pow_eq]
  obtain ⟨k, hk, hgcd⟩ := (Nat.dvd_prime_pow Nat.prime_two).1 (Nat.gcd_dvd_right units (2 ^ n))
  exact ⟨k, n - k, hgcd, by rw [← Nat.pow_add, Nat.add_sub_cancel' hk]⟩

/-- The exact value of a rank is nearest to that rank. -/
theorem nearestRank_exact (rank : Nat) : (exact rank).nearestRank = rank := by
  obtain ⟨k, h, hgcd, hone⟩ := gcd_unitsOfOne (unitsOfRank rank)
  have hhalvings : (2 ^ k * 2 ^ h / 2 ^ k).log2 = h := by
    rw [Nat.mul_div_cancel_left _ (Nat.two_pow_pos k), Nat.log2_two_pow]
  have hunits : unitsOfRank rank / 2 ^ k * 2 ^ k = unitsOfRank rank := by
    rw [← hgcd]
    exact Nat.div_mul_cancel (Nat.gcd_dvd_left _ _)
  have hzero : (-(h : Int)).toNat = 0 := by omega
  have hplaces : (- -(h : Int)).toNat = h := by omega
  have hten : (10 : Nat) ^ h = 2 ^ h * 5 ^ h := by rw [← Nat.mul_pow]
  have hscale : 0 < 2 ^ h * 5 ^ h := Nat.mul_pos (Nat.two_pow_pos h) (Nat.pow_pos (by decide))
  rw [hone] at hgcd
  rw [exact, nearestRank]
  simp only [hgcd, hone, hhalvings, Nat.pow_eq, hzero, hplaces, hten]
  generalize unitsOfRank rank / 2 ^ k = units at *
  calc rankOfUnits (units * 5 ^ h * 10 ^ 0 * (2 ^ k * 2 ^ h)) (2 ^ h * 5 ^ h)
      = rankOfUnits (2 ^ h * 5 ^ h * (units * 2 ^ k)) (2 ^ h * 5 ^ h * 1) := by
        rw [show units * 5 ^ h * 10 ^ 0 * (2 ^ k * 2 ^ h) = 2 ^ h * 5 ^ h * (units * 2 ^ k) by ring, Nat.mul_one]
    _ = rank := by rw [rankOfUnits_mul hscale, hunits, rankOfUnits_unitsOfRank]

/-- **The decimal that a finite rank is written as is nearest to that rank.** -/
theorem nearestRank_shortest (tie : Tie) {rank : Nat} (hfinite : rank < rankOfInfinity) :
    (shortest tie rank).nearestRank = rank := by
  rcases Nat.eq_zero_or_pos rank with rfl | hpos
  · rw [shortest, if_pos rfl, nearestRank, Nat.zero_mul, Nat.zero_mul]
    rfl
  · rw [shortest, if_neg (Nat.ne_of_gt hpos)]
    simp only
    rw [nearestRank_strip]
    cases hfound : (List.range' 1 17).findSome? _ with
    | none => exact nearestRank_exact rank
    | some d =>
      obtain ⟨digits, -, hd⟩ := List.exists_of_findSome?_eq_some hfound
      have hrank := List.find?_some hd
      exact nearestRank_of_rank_eq (by simpa using hrank) hpos hfinite

end Decimal

end Formulary
