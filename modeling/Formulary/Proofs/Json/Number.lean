import Formulary.Document.Basic

/-!
# Numbers read back

A number has no closing mark: it ends where the next character cannot continue it (`EndsNumber`). Whole numbers are
always read back (`readNumber_wholeChars`). A double need not be, since reading does not round to the nearest double;
`ReadsBack` says of one double that it is.
-/

namespace Formulary.Json

/-- What follows a number does not continue it. -/
def EndsNumber (rest : List Char) : Prop :=
  ∀ c ∈ rest.head?, c.isDigit = false ∧ c ≠ '.' ∧ c ≠ 'e' ∧ c ≠ 'E'

/-- The text of a finite double, as documents hold it, is read as that double. -/
def ReadsBack (x : Float) : Prop :=
  readNumber (Style.document.finiteChars x) = some (.real x, [])

/-- Whether a number was read that is `x`, and nothing was left. -/
def isReal (x : Float) : Option (Json × List Char) → Bool
  | some (.real y, []) => y = x
  | _ => false

theorem isReal_iff {x : Float} {r : Option (Json × List Char)} : isReal x r = true ↔ r = some (.real x, []) := by
  unfold isReal
  split
  · simp
  · next h => simpa using h x

instance (x : Float) : Decidable (ReadsBack x) :=
  decidable_of_iff _ isReal_iff

theorem endsNumber_nil : EndsNumber [] := by
  simp [EndsNumber]

theorem endsNumber_cons {c : Char} {rest : List Char} (hd : c.isDigit = false) (hp : c ≠ '.')
    (he : c ≠ 'e') (hE : c ≠ 'E') : EndsNumber (c :: rest) := by
  simpa [EndsNumber] using ⟨hd, hp, he, hE⟩

/-! ## Digits -/

section
variable {rest : List Char}

theorem takeWhile_isDigit_append (h : EndsNumber rest) (s : List Char) :
    (s ++ rest).takeWhile Char.isDigit = s.takeWhile Char.isDigit := by
  induction s with
  | nil => cases rest <;> simp_all [EndsNumber]
  | cons c s ih => simp [List.takeWhile_cons, ih]

theorem dropWhile_isDigit_append (h : EndsNumber rest) (s : List Char) :
    (s ++ rest).dropWhile Char.isDigit = s.dropWhile Char.isDigit ++ rest := by
  induction s with
  | nil => cases rest <;> simp_all [EndsNumber]
  | cons c s ih => simp only [List.cons_append, List.dropWhile_cons, ih]; split <;> rfl

theorem readDigits_append (h : EndsNumber rest) {s ds t : List Char}
    (hs : readDigits s = some (ds, t)) : readDigits (s ++ rest) = some (ds, t ++ rest) := by
  unfold readDigits at hs ⊢
  rw [takeWhile_isDigit_append h, dropWhile_isDigit_append h]
  split at hs
  · exact absurd hs (by simp)
  · next hds _ =>
    obtain ⟨rfl, rfl⟩ := Prod.mk.inj (Option.some.inj hs)
    rfl

/-! ## The parts of a number -/

theorem readIntegerPart_append (h : EndsNumber rest) {s ds t : List Char}
    (hs : readIntegerPart s = some (ds, t)) : readIntegerPart (s ++ rest) = some (ds, t ++ rest) := by
  unfold readIntegerPart at hs
  split at hs
  · next s =>
    have hhead : ((s ++ rest).headD ' ').isDigit = (s.headD ' ').isDigit := by
      cases s with
      | nil => cases rest <;> simp_all [EndsNumber]
      | cons c s => rfl
    rw [List.cons_append, readIntegerPart, hhead]
    split at hs
    · exact absurd hs (by simp)
    · next hdigit =>
      obtain ⟨rfl, rfl⟩ := Prod.mk.inj (Option.some.inj hs)
      rw [if_neg hdigit]
  · next hzero =>
    have hnil : s ≠ [] := by rintro rfl; simp [readDigits] at hs
    obtain ⟨c, s, rfl⟩ := List.exists_cons_of_ne_nil hnil
    have hc : c ≠ '0' := by
      rintro rfl
      exact hzero s rfl
    rw [List.cons_append, readIntegerPart, ← List.cons_append]
    · exact readDigits_append h hs
    · intro t ht
      exact hc (List.cons.inj ht).1

theorem readFraction_append (h : EndsNumber rest) {s t : List Char} {ds : Option (List Char)}
    (hs : readFraction s = some (ds, t)) : readFraction (s ++ rest) = some (ds, t ++ rest) := by
  unfold readFraction at hs
  split at hs
  · next s =>
    obtain ⟨⟨digits, t'⟩, hdigits, heq⟩ := Option.map_eq_some_iff.1 hs
    obtain ⟨rfl, rfl⟩ := Prod.mk.inj heq
    rw [List.cons_append, readFraction, readDigits_append h hdigits]
    rfl
  · next hpoint =>
    obtain ⟨rfl, rfl⟩ := Prod.mk.inj (Option.some.inj hs)
    rw [readFraction]
    intro t ht
    cases s with
    | nil => cases rest <;> simp_all [EndsNumber]
    | cons c s => exact hpoint s (by simp_all)

def readExponentDigits : List Char → Option (Option Int × List Char)
  | '-' :: rest => (readDigits rest).map fun (digits, rest) => (some (-digitsValue digits), rest)
  | '+' :: rest => (readDigits rest).map fun (digits, rest) => (some (digitsValue digits), rest)
  | rest => (readDigits rest).map fun (digits, rest) => (some (digitsValue digits), rest)

theorem readExponent_cons (c : Char) (s : List Char) : readExponent (c :: s) =
    if c = 'e' ∨ c = 'E' then readExponentDigits s else some (none, c :: s) := rfl

theorem readExponentDigits_append (h : EndsNumber rest) {s t : List Char} {e : Option Int}
    (hs : readExponentDigits s = some (e, t)) :
    readExponentDigits (s ++ rest) = some (e, t ++ rest) := by
  unfold readExponentDigits at hs
  split at hs
  · next s =>
    obtain ⟨⟨digits, t'⟩, hdigits, heq⟩ := Option.map_eq_some_iff.1 hs
    obtain ⟨rfl, rfl⟩ := Prod.mk.inj heq
    rw [List.cons_append, readExponentDigits, readDigits_append h hdigits]
    rfl
  · next s =>
    obtain ⟨⟨digits, t'⟩, hdigits, heq⟩ := Option.map_eq_some_iff.1 hs
    obtain ⟨rfl, rfl⟩ := Prod.mk.inj heq
    rw [List.cons_append, readExponentDigits, readDigits_append h hdigits]
    rfl
  · next hminus hplus =>
    obtain ⟨⟨digits, t'⟩, hdigits, heq⟩ := Option.map_eq_some_iff.1 hs
    obtain ⟨rfl, rfl⟩ := Prod.mk.inj heq
    have hnil : s ≠ [] := by rintro rfl; simp [readDigits] at hdigits
    obtain ⟨c, s, rfl⟩ := List.exists_cons_of_ne_nil hnil
    rw [readExponentDigits, readDigits_append h hdigits]
    · rfl
    · intro u hu
      exact hminus s (by rw [(List.cons.inj hu).1])
    · intro u hu
      exact hplus s (by rw [(List.cons.inj hu).1])

theorem readExponent_append (h : EndsNumber rest) {s t : List Char} {e : Option Int}
    (hs : readExponent s = some (e, t)) : readExponent (s ++ rest) = some (e, t ++ rest) := by
  cases s with
  | nil =>
    obtain ⟨rfl, rfl⟩ := Prod.mk.inj (Option.some.inj hs)
    cases rest with
    | nil => rfl
    | cons c rest =>
      have hc := h c rfl
      rw [List.nil_append, readExponent_cons, if_neg (by simp [hc])]
  | cons c s =>
    rw [readExponent_cons] at hs
    rw [List.cons_append, readExponent_cons]
    split at hs
    · next hc => rw [if_pos hc, readExponentDigits_append h hs]
    · next hc =>
      rw [if_neg hc]
      obtain ⟨rfl, rfl⟩ := Prod.mk.inj (Option.some.inj hs)
      rfl

def readMagnitude (negative : Bool) (input : List Char) : Option (Json × List Char) := do
  let (integer, input) ← readIntegerPart input
  let (fraction, input) ← readFraction input
  let (exponent, input) ← readExponent input
  return (numberOfParts negative integer fraction exponent, input)

theorem readNumber_minus (s : List Char) : readNumber ('-' :: s) = readMagnitude true s := rfl

theorem readNumber_of_ne {c : Char} (h : c ≠ '-') (s : List Char) :
    readNumber (c :: s) = readMagnitude false (c :: s) := by
  unfold readNumber
  split
  next heq =>
    split at heq
    · next hs => exact absurd (List.cons.inj hs).1 h
    · obtain ⟨rfl, rfl⟩ := Prod.mk.inj heq
      rfl

theorem readMagnitude_append (h : EndsNumber rest) {negative : Bool} {s t : List Char} {j : Json}
    (hs : readMagnitude negative s = some (j, t)) :
    readMagnitude negative (s ++ rest) = some (j, t ++ rest) := by
  simp only [readMagnitude, Option.bind_eq_bind, Option.bind_eq_some_iff] at hs
  obtain ⟨⟨integer, s1⟩, h1, ⟨fraction, s2⟩, h2, ⟨exponent, s3⟩, h3, heq⟩ := hs
  obtain ⟨rfl, rfl⟩ := Prod.mk.inj (Option.some.inj heq)
  simp [readMagnitude, readIntegerPart_append h h1, readFraction_append h h2,
    readExponent_append h h3]

/-- **A number is read the same way in front of whatever ends it.** -/
theorem readNumber_append (h : EndsNumber rest) {s t : List Char} {j : Json}
    (hs : readNumber s = some (j, t)) : readNumber (s ++ rest) = some (j, t ++ rest) := by
  cases s with
  | nil => simp [readNumber, readIntegerPart, readDigits] at hs
  | cons c s =>
    by_cases hc : c = '-'
    · subst hc
      rw [readNumber_minus] at hs
      rw [List.cons_append, readNumber_minus, readMagnitude_append h hs]
    · rw [readNumber_of_ne hc] at hs
      rw [List.cons_append, readNumber_of_ne hc, ← List.cons_append, readMagnitude_append h hs]

end

/-! ## Whole numbers -/

/-- Only the number zero has a zero for its first digit. -/
theorem head?_toDigits_ne_zero {n : Nat} (h : 0 < n) : (Nat.toDigits 10 n).head? ≠ some '0' := by
  induction n using Nat.strongRecOn with
  | ind n ih =>
    by_cases hn : n < 10
    · rw [Nat.toDigits_of_lt_base hn]
      simpa using Nat.pos_iff_ne_zero.1 h
    · have hpos : 0 < n / 10 := by omega
      rw [Nat.toDigits_of_base_le (by omega) (by omega), List.head?_append]
      cases hd : (Nat.toDigits 10 (n / 10)).head? with
      | none => simp at hd
      | some c => simpa [hd] using ih (n / 10) (by omega) hpos

theorem digitsValue_toDigits (n : Nat) : digitsValue (Nat.toDigits 10 n) = n := by
  have h : digitsValue (Nat.toDigits 10 n) = Nat.ofDigitChars 10 (Nat.toDigits 10 n) 0 := by
    simp only [digitsValue, Nat.ofDigitChars_eq_foldl, Nat.mul_comm]
  rw [h, Nat.ofDigitChars_ten_toDigits]

theorem isDigit_of_mem_toDigits {n : Nat} {c : Char} (h : c ∈ Nat.toDigits 10 n) : c.isDigit = true :=
  Nat.isDigit_of_mem_toDigits (by omega) (by omega) h

theorem readDigits_toDigits (n : Nat) :
    readDigits (Nat.toDigits 10 n) = some (Nat.toDigits 10 n, []) := by
  have hall : ∀ c ∈ Nat.toDigits 10 n, c.isDigit = true := by
    intro c hc
    exact isDigit_of_mem_toDigits hc
  have htake : (Nat.toDigits 10 n).takeWhile Char.isDigit = Nat.toDigits 10 n := by
    rw [← List.append_nil (Nat.toDigits 10 n), List.takeWhile_append_of_pos (by simpa using hall)]
    rfl
  have hdrop : (Nat.toDigits 10 n).dropWhile Char.isDigit = [] := by
    rw [← List.append_nil (Nat.toDigits 10 n), List.dropWhile_append_of_pos (by simpa using hall)]
    rfl
  unfold readDigits
  rw [htake, hdrop]
  split
  · next h => exact absurd h Nat.toDigits_ne_nil
  · rfl

theorem readIntegerPart_toDigits (n : Nat) :
    readIntegerPart (Nat.toDigits 10 n) = some (Nat.toDigits 10 n, []) := by
  rcases Nat.eq_zero_or_pos n with rfl | hn
  · decide
  · rw [readIntegerPart]
    · exact readDigits_toDigits n
    · intro t ht
      exact head?_toDigits_ne_zero hn (by rw [ht]; rfl)

theorem readMagnitude_toDigits (negative : Bool) (n : Nat) :
    readMagnitude negative (Nat.toDigits 10 n) =
      some (numberOfParts negative (Nat.toDigits 10 n) none none, []) := by
  rw [readMagnitude, readIntegerPart_toDigits]
  rfl

theorem numberOfParts_eq_whole {negative : Bool} {ds : List Char} {n : Int}
    (hn : (if negative then -(digitsValue ds : Int) else digitsValue ds) = n) (hfits : Fits n)
    (hzero : negative = true → n ≠ 0) : numberOfParts negative ds none none = .whole n := by
  subst hn
  exact if_pos ⟨rfl, rfl, hfits, fun h => hzero h.1 h.2⟩

/-- **A whole number is read back.** -/
theorem readNumber_wholeChars {n : Int} (h : Fits n) : readNumber (wholeChars n) = some (.whole n, []) := by
  by_cases hn : n < 0
  · have hvalue : (-(n.natAbs : Int)) = n := by omega
    have hparts : numberOfParts true (Nat.toDigits 10 n.natAbs) none none = .whole n := by
      refine numberOfParts_eq_whole ?_ h fun _ => by omega
      rw [digitsValue_toDigits, if_pos rfl, hvalue]
    rw [wholeChars, if_pos hn, List.singleton_append, readNumber_minus, readMagnitude_toDigits, hparts]
  · have hvalue : (n.natAbs : Int) = n := by omega
    have hparts : numberOfParts false (Nat.toDigits 10 n.natAbs) none none = .whole n := by
      refine numberOfParts_eq_whole ?_ h nofun
      rw [digitsValue_toDigits, if_neg (by decide), hvalue]
    obtain ⟨c, ds, hds⟩ := List.exists_cons_of_ne_nil (Nat.toDigits_ne_nil (b := 10) (n := n.natAbs))
    have hc : c.isDigit = true := isDigit_of_mem_toDigits (n := n.natAbs) (by rw [hds]; simp)
    have hminus : c ≠ '-' := by rintro rfl; exact absurd hc (by decide)
    rw [wholeChars, if_neg hn, List.nil_append]
    rw [hds, readNumber_of_ne hminus, ← hds, readMagnitude_toDigits, hparts]

/-! ## The first character of a number -/

theorem readIntegerPart_head {c : Char} {s : List Char} {x : List Char × List Char}
    (h : readIntegerPart (c :: s) = some x) : c.isDigit = true := by
  cases hc : c.isDigit with
  | true => rfl
  | false =>
    have hzero : c ≠ '0' := by rintro rfl; exact absurd hc (by decide)
    rw [readIntegerPart] at h
    · simp [readDigits, hc] at h
    · intro t ht
      exact hzero (List.cons.inj ht).1

/-- A number begins with a minus or a digit. -/
theorem readNumber_head {c : Char} {s : List Char} {x : Json × List Char}
    (h : readNumber (c :: s) = some x) : c = '-' ∨ c.isDigit = true := by
  by_cases hc : c = '-'
  · exact .inl hc
  · rw [readNumber_of_ne hc] at h
    simp only [readMagnitude, Option.bind_eq_bind, Option.bind_eq_some_iff] at h
    obtain ⟨x, hx, -⟩ := h
    exact .inr (readIntegerPart_head hx)

end Formulary.Json
