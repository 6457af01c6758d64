import Formulary.Decimal.Style
import Formulary.Proofs.Decimal.Ranks

/-!
# Numbers told apart by their texts

Doubles that are shown alike are the same (`showNumber_inj`): the text of a finite double gives its sign and a decimal,
and the double is the one nearest to that. All NaNs are one here.
-/

namespace Formulary

open Float.Model (Format UnpackedFloat)
open Float.Model.UnpackedFloat

/-- Where a run of characters of one class ends is seen from the text. -/
theorem append_inj_of_head {p : Char → Bool} {t t' r r' : List Char} (ht : ∀ c ∈ t, p c = true)
    (ht' : ∀ c ∈ t', p c = true) (hr : ∀ c ∈ r.head?, p c = false) (hr' : ∀ c ∈ r'.head?, p c = false)
    (h : t ++ r = t' ++ r') : t = t' ∧ r = r' := by
  induction t generalizing t' with
  | nil =>
    cases t' with
    | nil => exact ⟨rfl, h⟩
    | cons c t' =>
      have hc : r.head? = some c := by rw [show r = c :: t' ++ r' from h]; rfl
      exact absurd (ht' c List.mem_cons_self) (by simp [hr c hc])
  | cons c t ih =>
    cases t' with
    | nil =>
      have hc : r'.head? = some c := by rw [← show c :: t ++ r = r' from h]; rfl
      exact absurd (ht c List.mem_cons_self) (by simp [hr' c hc])
    | cons c' t' =>
      obtain ⟨rfl, htail⟩ := List.cons.inj h
      obtain ⟨rfl, rfl⟩ := ih (fun d hd => ht d (List.mem_cons_of_mem c hd))
        (fun d hd => ht' d (List.mem_cons_of_mem c hd)) htail
      exact ⟨rfl, rfl⟩

/-! ## Digits and a point -/

/-- Some digits, and a point and more digits unless there are none of those. -/
def pointed (whole fraction : List Char) : List Char :=
  whole ++ if fraction = [] then [] else '.' :: fraction

theorem pointed_inj {w f w' f' : List Char} (hw : ∀ c ∈ w, c.isDigit = true) (hw' : ∀ c ∈ w', c.isDigit = true)
    (h : pointed w f = pointed w' f') : w = w' ∧ f = f' := by
  have hhead : ∀ f : List Char, ∀ c ∈ (if f = [] then [] else '.' :: f).head?, c.isDigit = false := by
    intro f c hc
    split at hc
    · cases hc
    · obtain rfl := Option.some.inj hc
      rfl
  obtain ⟨rfl, hf⟩ := append_inj_of_head hw hw' (hhead f) (hhead f') h
  refine ⟨rfl, ?_⟩
  split at hf <;> split at hf <;> simp_all

namespace Style

/-- What a text of digits and a point says: its digits are the coefficient of the decimal, with zeros for a positive
exponent, and a negative exponent is the number of digits after the point. -/
def Says (text : List Char) (d : Decimal) : Prop :=
  ∃ whole fraction, text = pointed whole fraction ∧ whole ≠ [] ∧ (∀ c ∈ whole ++ fraction, c.isDigit = true) ∧
    fraction.length = (-d.exponent).toNat ∧
    Nat.ofDigitChars 10 (whole ++ fraction) 0 = d.coefficient * 10 ^ d.exponent.toNat

theorem isDigit_of_mem_zeros {n : Nat} {c : Char} (hc : c ∈ List.replicate n '0') : c.isDigit = true := by
  rw [List.eq_of_mem_replicate hc]
  rfl

section
variable {d : Decimal} {digits : List Char} (hdigits : ∀ c ∈ digits, c.isDigit = true)
  (hvalue : Nat.ofDigitChars 10 digits 0 = d.coefficient)
include hdigits hvalue

/-- Zeros behind the digits are for the exponent. -/
theorem says_zeros (hne : digits ≠ []) (he : 0 ≤ d.exponent) :
    Says (digits ++ List.replicate d.exponent.toNat '0') d := by
  refine ⟨digits ++ List.replicate d.exponent.toNat '0', [], by simp [pointed], by simp [hne], ?_, ?_, ?_⟩
  · intro c hc
    rw [List.append_nil, List.mem_append] at hc
    exact hc.elim (hdigits c) isDigit_of_mem_zeros
  · rw [List.length_nil]
    omega
  · rw [List.append_nil, Nat.ofDigitChars_append, hvalue, Nat.ofDigitChars_replicate_zero, Nat.mul_comm]

/-- A point among the digits leaves them as they are. -/
theorem says_split {n : Nat} (hn : 0 < n) (hlt : n < digits.length) (he : d.exponent = n - digits.length) :
    Says (digits.take n ++ '.' :: digits.drop n) d := by
  have hfraction : (digits.drop n).length = (-d.exponent).toNat := by
    rw [List.length_drop]
    omega
  refine ⟨digits.take n, digits.drop n, ?_, ?_, ?_, hfraction, ?_⟩
  · rw [pointed, if_neg (List.ne_nil_of_length_pos (by rw [List.length_drop]; omega))]
  · apply List.ne_nil_of_length_pos
    rw [List.length_take]
    omega
  · rw [List.take_append_drop]
    exact hdigits
  · rw [List.take_append_drop, hvalue, show d.exponent.toNat = 0 by omega, Nat.pow_zero, Nat.mul_one]

/-- Zeros before the digits add nothing. -/
theorem says_leading {n : Nat} (hne : digits ≠ []) (he : d.exponent = -(n + digits.length : Nat)) :
    Says ('0' :: '.' :: List.replicate n '0' ++ digits) d := by
  refine ⟨['0'], List.replicate n '0' ++ digits, ?_, by simp, ?_, ?_, ?_⟩
  · rw [pointed, if_neg (by simp [hne])]
    rfl
  · intro c hc
    rw [List.mem_append, List.mem_append] at hc
    rcases hc with hc | hc | hc
    · rw [List.mem_singleton.1 hc]
      rfl
    · exact isDigit_of_mem_zeros hc
    · exact hdigits c hc
  · rw [List.length_append, List.length_replicate]
    omega
  · rw [Nat.ofDigitChars_append, Nat.ofDigitChars_append, Nat.ofDigitChars_replicate_zero]
    show Nat.ofDigitChars 10 digits (10 ^ n * 0) = _
    rw [Nat.mul_zero, hvalue, show d.exponent.toNat = 0 by omega, Nat.pow_zero, Nat.mul_one]

end

/-- **The text of a decimal says that decimal.** -/
theorem says_decimalChars (d : Decimal) : Says (plain.decimalChars d) d := by
  have hdigits : ∀ c ∈ Nat.toDigits 10 d.coefficient, c.isDigit = true :=
    fun c hc => Nat.isDigit_of_mem_toDigits (by decide) (by decide) hc
  have hvalue : Nat.ofDigitChars 10 (Nat.toDigits 10 d.coefficient) 0 = d.coefficient := Nat.ofDigitChars_ten_toDigits
  have hpos : 0 < (Nat.toDigits 10 d.coefficient).length := Nat.length_toDigits_pos
  have hne := List.ne_nil_of_length_pos hpos
  unfold decimalChars
  simp only [plain, if_true, List.append_nil]
  split
  · next he => exact says_zeros hdigits hvalue hne he
  split
  · next he hfirst => exact says_split hdigits hvalue (by omega) (by omega) (by omega)
  · next he hfirst => exact says_leading hdigits hvalue hne (by omega)

/-- Decimals with the same text have the same nearest double. -/
theorem nearestRank_eq_of_chars_eq {d d' : Decimal} (h : plain.decimalChars d = plain.decimalChars d') :
    d.nearestRank = d'.nearestRank := by
  obtain ⟨w, f, htext, -, hdigits, hlength, hvalue⟩ := says_decimalChars d
  obtain ⟨w', f', htext', -, hdigits', hlength', hvalue'⟩ := says_decimalChars d'
  rw [htext, htext'] at h
  obtain ⟨rfl, rfl⟩ := pointed_inj (fun c hc => hdigits c (List.mem_append_left _ hc))
    (fun c hc => hdigits' c (List.mem_append_left _ hc)) h
  rw [Decimal.nearestRank, Decimal.nearestRank, ← hvalue, ← hvalue', ← hlength, ← hlength']

/-- **Finite ranks are told apart by their texts.** -/
theorem rank_eq_of_chars_eq {tie : Tie} {r r' : Nat} (hr : r < rankOfInfinity) (hr' : r' < rankOfInfinity)
    (h : plain.decimalChars (.shortest tie r) = plain.decimalChars (.shortest tie r')) : r = r' := by
  rw [← Decimal.nearestRank_shortest tie hr, ← Decimal.nearestRank_shortest tie hr']
  exact nearestRank_eq_of_chars_eq h

end Style

/-! ## Bits -/

/-- A double is its sign and its rank. -/
theorem eq_of_rankOf {x y : Float} (hsign : signOf x = signOf y) (hrank : rankOf x = rankOf y) : x = y := by
  have hbit : signBit = 2 ^ 63 := rfl
  have hx := x.toBits.toNat_lt
  have hy := y.toBits.toNat_lt
  rw [signOf, signOf, decide_eq_decide, hbit] at hsign
  rw [rankOf, rankOf, hbit] at hrank
  rw [← Float.toBits_inj, ← UInt64.toNat_inj]
  omega

def exponentField (x : Float) : BitVec Format.binary64.exponentBits :=
  unpackExponent x.toBits.toBitVec

def fractionField (x : Float) : BitVec Format.binary64.mantissaBitsWithoutImplicit :=
  unpackMantissa x.toBits.toBitVec

/-- The rank is the exponent bits and the fraction bits behind them. -/
theorem rankOf_eq (x : Float) : rankOf x = (exponentField x).toNat * binade + (fractionField x).toNat := by
  have hbit : signBit = 2 ^ 63 := rfl
  have hbinade : binade = 2 ^ 52 := rfl
  have hbits : x.toBits.toBitVec.toNat = x.toBits.toNat := rfl
  rw [exponentField, fractionField, unpackExponent_def, unpackMantissa_def, BitVec.extractLsb'_toNat,
    BitVec.extractLsb'_toNat, hbits, rankOf, hbit, hbinade, Nat.shiftRight_eq_div_pow, Nat.shiftRight_zero]
  show _ = x.toBits.toNat / 2 ^ 52 % 2 ^ 11 * 2 ^ 52 + x.toBits.toNat % 2 ^ 52
  omega

theorem rankOf_lt_of_finite {x : Float} (hnan : x.isNaN = false) (hinf : x.isInf = false) :
    rankOf x < rankOfInfinity := by
  have hones : exponentField x ≠ -1#_ := by
    intro (hones : unpackExponent _ = _)
    have hnan' : (unpack Format.binary64 x.toBits.toBitVec).isNaN = false := hnan
    have hinf' : (unpack Format.binary64 x.toBits.toBitVec).isInf = false := hinf
    unfold UnpackedFloat.unpack at hnan' hinf'
    simp only [hones, if_true] at hnan' hinf'
    split at hnan'
    · next h => simp [h, UnpackedFloat.isInf] at hinf'
    · simp [UnpackedFloat.isNaN] at hnan'
  have hne : (exponentField x).toNat ≠ 2047 := by
    intro h
    exact hones (BitVec.eq_of_toNat_eq h)
  have hexponent : (exponentField x).toNat < 2048 := BitVec.isLt _
  have hfraction : (fractionField x).toNat < 2 ^ 52 := BitVec.isLt _
  have hbinade : binade = 2 ^ 52 := rfl
  rw [rankOf_eq, rankOfInfinity, hbinade]
  omega

theorem rankOf_of_isInf {x : Float} (h : x.isInf = true) : rankOf x = rankOfInfinity := by
  have hinf : (unpack Format.binary64 x.toBits.toBitVec).isInf = true := h
  unfold UnpackedFloat.unpack at hinf
  simp only at hinf
  split at hinf
  · next hones =>
    split at hinf
    · next hzero =>
      rw [rankOf_eq, exponentField, fractionField, hones, hzero]
      rfl
    · cases hinf
  · split at hinf
    · split at hinf <;> cases hinf
    · cases hinf

/-! ## Shown numbers -/

def magnitudeChars (x : Float) : List Char :=
  if x.isNaN then ['N', 'a', 'N']
  else if x.isInf then ['i', 'n', 'f']
  else Style.plain.decimalChars (.shortest .up (rankOf x))

/-- The sign of a double in its text. What is not a number has none. -/
def signChars (x : Float) : List Char :=
  if x.isNaN = false ∧ signOf x = true then ['-'] else []

theorem toList_showNumber (x : Float) : (showNumber x).toList = signChars x ++ magnitudeChars x := by
  unfold showNumber signChars magnitudeChars Style.finiteChars
  cases x.isNaN <;> cases x.isInf <;> cases signOf x <;> simp [Style.plain]

/-- The first character of a double without its sign: only what is not a number begins like one that is not, and of
the others only an infinity like an infinity. -/
theorem head_magnitudeChars (x : Float) : ∃ c t, magnitudeChars x = c :: t ∧ c ≠ '-' ∧
    (x.isNaN = true ↔ c = 'N') ∧ (x.isNaN = false → (x.isInf = true ↔ c = 'i')) := by
  unfold magnitudeChars
  cases x.isNaN with
  | true => exact ⟨_, _, rfl, by decide, by decide, nofun⟩
  | false =>
    cases x.isInf with
    | true => exact ⟨_, _, rfl, by decide, by decide, by decide⟩
    | false =>
      obtain ⟨w, f, htext, hw, hdigits, -, -⟩ := Style.says_decimalChars (.shortest .up (rankOf x))
      obtain ⟨c, t, rfl⟩ := List.exists_cons_of_ne_nil hw
      have hc : c.isDigit = true := hdigits c (by simp)
      refine ⟨c, _, htext, ?_, iff_of_false (by decide) ?_, fun _ => iff_of_false (by decide) ?_⟩
      all_goals
        rintro rfl
        cases hc

theorem eq_minus_of_mem_signChars (x : Float) : ∀ c ∈ signChars x, (c == '-') = true := by
  intro c hc
  unfold signChars at hc
  split at hc
  · simpa using hc
  · cases hc

theorem head_magnitudeChars_ne_minus (x : Float) : ∀ c ∈ (magnitudeChars x).head?, (c == '-') = false := by
  intro c hc
  obtain ⟨c', t, htext, hminus, -⟩ := head_magnitudeChars x
  rw [htext] at hc
  obtain rfl := Option.some.inj hc
  exact beq_eq_false_iff_ne.2 hminus

theorem isNaN_eq_of_magnitudeChars_eq {x y : Float} (h : magnitudeChars x = magnitudeChars y) :
    x.isNaN = y.isNaN ∧ (x.isNaN = false → x.isInf = y.isInf) := by
  obtain ⟨c, t, hx, -, hnanx, hinfx⟩ := head_magnitudeChars x
  obtain ⟨c', t', hy, -, hnany, hinfy⟩ := head_magnitudeChars y
  rw [hx, hy] at h
  obtain ⟨rfl, -⟩ := List.cons.inj h
  have hnan : x.isNaN = y.isNaN := Bool.eq_iff_iff.2 (hnanx.trans hnany.symm)
  exact ⟨hnan, fun h => Bool.eq_iff_iff.2 ((hinfx h).trans (hinfy (hnan ▸ h)).symm)⟩

/-- **Doubles are told apart by their texts.** -/
theorem showNumber_inj {x y : Float} (h : showNumber x = showNumber y) : x = y := by
  have hchars := congrArg String.toList h
  rw [toList_showNumber, toList_showNumber] at hchars
  obtain ⟨hsign, htext⟩ := append_inj_of_head (eq_minus_of_mem_signChars x) (eq_minus_of_mem_signChars y)
    (head_magnitudeChars_ne_minus x) (head_magnitudeChars_ne_minus y) hchars
  obtain ⟨hnan, hinf⟩ := isNaN_eq_of_magnitudeChars_eq htext
  cases hx : x.isNaN with
  | true =>
    rw [hx] at hnan
    rw [Float.isNaN_eq_decide_eq_nan, decide_eq_true_iff] at hx
    rw [eq_comm, Float.isNaN_eq_decide_eq_nan, decide_eq_true_iff] at hnan
    rw [hx, hnan]
  | false =>
    have hy : y.isNaN = false := hnan ▸ hx
    have hsigns : signOf x = signOf y := by
      unfold signChars at hsign
      cases hsx : signOf x <;> cases hsy : signOf y <;> simp_all
    refine eq_of_rankOf hsigns ?_
    cases hxi : x.isInf with
    | true => rw [rankOf_of_isInf hxi, rankOf_of_isInf (hinf hx ▸ hxi)]
    | false =>
      have hyi : y.isInf = false := hinf hx ▸ hxi
      unfold magnitudeChars at htext
      rw [hx, hy, hxi, hyi] at htext
      exact Style.rank_eq_of_chars_eq (rankOf_lt_of_finite hx hxi) (rankOf_lt_of_finite hy hyi) htext

/-! ## Shown numbers as words -/

/-- A character that does not separate words. -/
def isWordChar (c : Char) : Bool :=
  c ≠ ' ' && c ≠ ',' && c ≠ '(' && c ≠ ')'

theorem isWordChar_of_isDigit {c : Char} (h : c.isDigit = true) : isWordChar c = true := by
  simp only [isWordChar, Bool.and_eq_true, decide_eq_true_eq]
  refine ⟨⟨⟨?_, ?_⟩, ?_⟩, ?_⟩
  all_goals
    rintro rfl
    cases h

theorem isWordChar_of_mem_decimalChars {d : Decimal} {c : Char} (h : c ∈ Style.plain.decimalChars d) :
    isWordChar c = true := by
  obtain ⟨w, f, htext, -, hdigits, -, -⟩ := Style.says_decimalChars d
  rw [htext, pointed, List.mem_append] at h
  rcases h with h | h
  · exact isWordChar_of_isDigit (hdigits c (List.mem_append_left _ h))
  · split at h
    · cases h
    · rcases List.mem_cons.1 h with rfl | h
      · rfl
      · exact isWordChar_of_isDigit (hdigits c (List.mem_append_right _ h))

/-- A shown number is one word. -/
theorem isWordChar_of_mem_showNumber {x : Float} {c : Char} (h : c ∈ (showNumber x).toList) :
    isWordChar c = true := by
  have hnan : ∀ d ∈ ['N', 'a', 'N'], isWordChar d = true := by simp [isWordChar]
  have hinf : ∀ d ∈ ['i', 'n', 'f'], isWordChar d = true := by simp [isWordChar]
  rw [toList_showNumber, List.mem_append] at h
  rcases h with h | h
  · obtain rfl : c = '-' := by simpa using eq_minus_of_mem_signChars x c h
    rfl
  · unfold magnitudeChars at h
    split at h
    · exact hnan c h
    split at h
    · exact hinf c h
    · exact isWordChar_of_mem_decimalChars h

/-- A number begins with a digit or a minus unless it is one of two words. -/
theorem head_showNumber (x : Float) : showNumber x = "NaN" ∨ showNumber x = "inf" ∨
    ∃ c t, (showNumber x).toList = c :: t ∧ (c.isDigit = true ∨ c = '-') := by
  unfold showNumber
  split
  · exact .inl rfl
  split
  · split
    · exact .inr (.inr ⟨'-', _, rfl, .inr rfl⟩)
    · exact .inr (.inl rfl)
  · right
    right
    obtain ⟨w, f, htext, hw, hdigits, -, -⟩ := Style.says_decimalChars (.shortest .up (rankOf x))
    obtain ⟨c, t, rfl⟩ := List.exists_cons_of_ne_nil hw
    rw [String.toList_ofList, Style.finiteChars, show Style.plain.tie = .up from rfl, htext]
    split
    · exact ⟨'-', _, rfl, .inr rfl⟩
    · exact ⟨c, _, rfl, .inl (hdigits c (by simp))⟩

end Formulary
