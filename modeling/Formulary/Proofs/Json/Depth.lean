import Formulary.Json.Reader
import Formulary.Proofs.Json.Brackets
import Formulary.Proofs.Json.Number
import Formulary.Proofs.Json.Reading

/-!
# Brackets in a text that is read

A value that is read is nested at most as deep as the brackets of its text stand inside one another:
`nesting_le_bracketDepth`. What has no parts passes no bracket (`Passes`), and what is skipped closes as many brackets
as it opens (`skipOpen_le`).
-/

namespace Formulary.Json

/-- What is read between two places of a text opens and closes nothing. -/
def Passes (s t : List Char) : Prop :=
  ∀ count, deepestFrom .value count s = deepestFrom .value count t

theorem Passes.trans {s t u : List Char} (hs : Passes s t) (ht : Passes t u) : Passes s u := by
  intro count
  rw [hs count, ht count]

theorem passes_self (s : List Char) : Passes s s := by
  intro count
  rfl

theorem passes_cons {c : Char} (h : IsPlain c) (s : List Char) : Passes (c :: s) s := by
  intro count
  exact deepestFrom_plain count s (s := [c]) (by simpa using h)

theorem passes_dropWhile {p : Char → Bool} (h : ∀ c, p c = true → IsPlain c) (s : List Char) :
    Passes s (s.dropWhile p) := by
  induction s with
  | nil => exact passes_self []
  | cons c s ih =>
    by_cases hc : p c = true
    · rw [List.dropWhile_cons_of_pos hc]
      exact (passes_cons (h c hc) s).trans ih
    · rw [List.dropWhile_cons_of_neg hc]
      exact passes_self (c :: s)

theorem passes_skipBlanks (s : List Char) : Passes s (skipBlanks s) := by
  apply passes_dropWhile
  intro c hc
  simp only [isBlank, Bool.or_eq_true, decide_eq_true_eq] at hc
  rcases hc with ((rfl | rfl) | rfl) | rfl <;> simp [IsPlain]

/-! ## Numbers -/

section
variable {s t : List Char}

theorem passes_of_readDigits {ds : List Char} (h : readDigits s = some (ds, t)) : Passes s t := by
  unfold readDigits at h
  split at h
  · exact absurd h (by simp)
  · obtain ⟨-, rfl⟩ := Prod.mk.inj (Option.some.inj h)
    exact passes_dropWhile (fun c => isPlain_of_isDigit) s

theorem passes_of_readIntegerPart {ds : List Char} (h : readIntegerPart s = some (ds, t)) : Passes s t := by
  unfold readIntegerPart at h
  split at h
  · split at h
    · exact absurd h (by simp)
    · obtain ⟨-, rfl⟩ := Prod.mk.inj (Option.some.inj h)
      exact passes_cons (by simp [IsPlain]) _
  · exact passes_of_readDigits h

theorem passes_of_readFraction {ds : Option (List Char)} (h : readFraction s = some (ds, t)) : Passes s t := by
  unfold readFraction at h
  split at h
  · obtain ⟨⟨digits, u⟩, hdigits, heq⟩ := Option.map_eq_some_iff.1 h
    obtain ⟨-, rfl⟩ := Prod.mk.inj heq
    exact (passes_cons (by simp [IsPlain]) _).trans (passes_of_readDigits hdigits)
  · obtain ⟨-, rfl⟩ := Prod.mk.inj (Option.some.inj h)
    exact passes_self s

theorem passes_of_readExponentDigits {e : Option Int} (h : readExponentDigits s = some (e, t)) : Passes s t := by
  unfold readExponentDigits at h
  split at h
  all_goals
    obtain ⟨⟨digits, u⟩, hdigits, heq⟩ := Option.map_eq_some_iff.1 h
    obtain ⟨-, rfl⟩ := Prod.mk.inj heq
  · exact (passes_cons (by simp [IsPlain]) _).trans (passes_of_readDigits hdigits)
  · exact (passes_cons (by simp [IsPlain]) _).trans (passes_of_readDigits hdigits)
  · exact passes_of_readDigits hdigits

theorem passes_of_readExponent {e : Option Int} (h : readExponent s = some (e, t)) : Passes s t := by
  cases s with
  | nil =>
    obtain ⟨-, rfl⟩ := Prod.mk.inj (Option.some.inj h)
    exact passes_self []
  | cons c s =>
    rw [readExponent_cons] at h
    split at h
    · next hc =>
      have hplain : IsPlain c := by
        rcases hc with rfl | rfl <;> simp [IsPlain]
      exact (passes_cons hplain s).trans (passes_of_readExponentDigits h)
    · obtain ⟨-, rfl⟩ := Prod.mk.inj (Option.some.inj h)
      exact passes_self (c :: s)

theorem passes_of_readMagnitude {negative : Bool} {j : Json} (h : readMagnitude negative s = some (j, t)) :
    Passes s t := by
  simp only [readMagnitude, Option.bind_eq_bind, Option.bind_eq_some_iff] at h
  obtain ⟨⟨integer, s1⟩, h1, ⟨fraction, s2⟩, h2, ⟨exponent, s3⟩, h3, heq⟩ := h
  obtain ⟨-, rfl⟩ := Prod.mk.inj (Option.some.inj heq)
  exact (passes_of_readIntegerPart h1).trans ((passes_of_readFraction h2).trans (passes_of_readExponent h3))

theorem passes_of_readNumber {j : Json} (h : readNumber s = some (j, t)) : Passes s t := by
  cases s with
  | nil => simp [readNumber, readIntegerPart, readDigits] at h
  | cons c s =>
    by_cases hc : c = '-'
    · subst hc
      rw [readNumber_minus] at h
      exact (passes_cons (by simp [IsPlain]) s).trans (passes_of_readMagnitude h)
    · rw [readNumber_of_ne hc] at h
      exact passes_of_readMagnitude h

/-! ## Texts and names -/

theorem hexValue?_ne {c : Char} {n : Nat} (h : hexValue? c = some n) : c ≠ '"' ∧ c ≠ '\\' := by
  constructor <;> rintro rfl <;> simp [hexValue?] at h

theorem unitOf?_ne {a b c d : Char} {n : Nat} (h : unitOf? a b c d = some n) :
    (a ≠ '"' ∧ a ≠ '\\') ∧ (b ≠ '"' ∧ b ≠ '\\') ∧ (c ≠ '"' ∧ c ≠ '\\') ∧ (d ≠ '"' ∧ d ≠ '\\') := by
  simp only [unitOf?, Option.bind_eq_bind, Option.bind_eq_some_iff] at h
  obtain ⟨_, ha, _, hb, _, hc, _, hd, -⟩ := h
  exact ⟨hexValue?_ne ha, hexValue?_ne hb, hexValue?_ne hc, hexValue?_ne hd⟩

/-- The pieces of a quoted text end with the quotation mark that closes it. -/
theorem deepestFrom_pieces {ps : List Piece} (h : pieces s = some (ps, t)) (count : Nat) :
    deepestFrom .quoted count s = deepestFrom .value count t := by
  fun_induction pieces s generalizing ps with
  | case1 => exact absurd h (by simp)
  | case2 rest =>
    obtain ⟨-, rfl⟩ := Prod.mk.inj (Option.some.inj h)
    simp [deepestFrom]
  | case3 a b c d rest ih =>
    simp only [Option.bind_eq_bind, Option.bind_eq_some_iff] at h
    obtain ⟨n, hn, ⟨qs, u⟩, hrest, heq⟩ := h
    obtain ⟨-, rfl⟩ := Prod.mk.inj (Option.some.inj heq)
    obtain ⟨ha, hb, hc, hd⟩ := unitOf?_ne hn
    rw [← ih hrest]
    simp [deepestFrom, ha, hb, hc, hd]
  | case4 c rest _ ih =>
    simp only [Option.bind_eq_bind, Option.bind_eq_some_iff] at h
    obtain ⟨d, hd, ⟨qs, u⟩, hrest, heq⟩ := h
    obtain ⟨-, rfl⟩ := Prod.mk.inj (Option.some.inj heq)
    rw [← ih hrest]
    simp [deepestFrom]
  | case5 c rest hquote _ hback ih =>
    simp only [Option.bind_eq_bind, Option.bind_eq_some_iff] at h
    obtain ⟨_, -, ⟨qs, u⟩, hrest, heq⟩ := h
    obtain ⟨-, rfl⟩ := Prod.mk.inj (Option.some.inj heq)
    -- A backslash is followed by something: without it there would be no closing mark.
    have hescape : c ≠ '\\' := by
      rintro rfl
      cases rest with
      | nil => exact absurd hrest (by simp [pieces])
      | cons d rest => exact hback d rest rfl rfl
    rw [← ih hrest, deepestFrom, if_neg hquote, if_neg hescape]

theorem deepestFrom_unquote {name : Option String} (h : unquote s = some (name, t)) (count : Nat) :
    deepestFrom .value count ('"' :: s) = deepestFrom .value count t := by
  obtain ⟨⟨ps, u⟩, hpieces, heq⟩ := Option.map_eq_some_iff.1 h
  obtain ⟨-, rfl⟩ := Prod.mk.inj heq
  rw [deepestFrom, if_pos rfl, deepestFrom_pieces hpieces]

theorem passes_of_readName {name : Option String} (h : readName s = some (name, t)) : Passes s t := by
  unfold readName at h
  split at h
  · next rest hs =>
    simp only [Option.bind_eq_bind, Option.bind_eq_some_iff] at h
    obtain ⟨⟨text, u⟩, htext, h⟩ := h
    split at h
    · next v hv =>
      obtain ⟨-, rfl⟩ := Prod.mk.inj (Option.some.inj h)
      have hcolon : Passes (':' :: v) v := passes_cons (by simp [IsPlain]) v
      have hname : Passes (skipBlanks s) u := by
        rw [hs]
        exact deepestFrom_unquote htext
      have hblanks := (passes_skipBlanks u).trans (by rw [hv]; exact hcolon)
      exact (passes_skipBlanks s).trans (hname.trans hblanks)
    · exact absurd h (by simp)
  · exact absurd h (by simp)

theorem passes_of_readSimple {j : Json} (h : readSimple s = some (j, t)) : Passes s t := by
  unfold readSimple at h
  split at h
  · obtain ⟨-, rfl⟩ := Prod.mk.inj (Option.some.inj h)
    intro count
    simp [deepestFrom]
  · obtain ⟨-, rfl⟩ := Prod.mk.inj (Option.some.inj h)
    intro count
    simp [deepestFrom]
  · obtain ⟨-, rfl⟩ := Prod.mk.inj (Option.some.inj h)
    intro count
    simp [deepestFrom]
  · obtain ⟨⟨text, u⟩, htext, heq⟩ := Option.map_eq_some_iff.1 h
    obtain ⟨-, rfl⟩ := Prod.mk.inj heq
    exact deepestFrom_unquote htext
  · exact passes_of_readNumber h

/-! ## Skipped values -/

theorem le_deepestFrom_close (count : Nat) {c : Char} (h : c = ']' ∨ c = '\x7d') (s : List Char) :
    deepestFrom .value count s ≤ deepestFrom .value (count + 1) (c :: s) := by
  have hclose := deepestFrom_close count .compact 0 h s
  rw [Layout.lineStart, List.nil_append] at hclose
  omega

theorem passes_of_skipName {bracket : Bracket} (h : bracket.skipName s = some t) : Passes s t := by
  cases bracket with
  | square =>
    obtain rfl := Option.some.inj h
    exact passes_self s
  | curly =>
    obtain ⟨⟨name, u⟩, hname, rfl⟩ := Option.map_eq_some_iff.1 h
    exact passes_of_readName hname

/-- What skipping does where a value is still to come: whether one is still to come after it, the brackets that it
opens, and what follows. -/
def skipDue (input : List Char) : Option (Bool × List Bracket × List Char) :=
  match skipBlanks input with
  | '[' :: rest =>
    match skipBlanks rest with
    | ']' :: rest => some (false, [], rest)
    | rest => some (true, [.square], rest)
  | '\x7b' :: rest =>
    match skipBlanks rest with
    | '\x7d' :: rest => some (false, [], rest)
    | rest => (Bracket.curly.skipName rest).map fun rest => (true, [.curly], rest)
  | rest => (readSimple rest).map fun x => (false, [], x.2)

/-- What skipping does after a value inside a bracket: whether another is to come, the bracket if it stays open, and
what follows. -/
def skipDone (bracket : Bracket) (input : List Char) : Option (Bool × List Bracket × List Char) :=
  match skipBlanks input with
  | ',' :: rest => (bracket.skipName rest).map fun rest => (true, [bracket], rest)
  | c :: rest => if c = bracket.close then some (false, [], rest) else none
  | [] => none

theorem skipOpen_due (steps : Nat) (brackets : List Bracket) (s : List Char) :
    skipOpen (steps + 1) true brackets s =
      (skipDue s).bind fun x => skipOpen steps x.1 (x.2.1 ++ brackets) x.2.2 := by
  rw [skipOpen, skipDue]
  split
  · split <;> simp_all
  · next rest hs =>
    split
    · simp_all
    · cases h : Bracket.curly.skipName (skipBlanks rest) <;> simp_all
  · cases h : readSimple (skipBlanks s) <;> simp_all

theorem skipOpen_done (steps : Nat) (bracket : Bracket) (brackets : List Bracket) (s : List Char) :
    skipOpen (steps + 1) false (bracket :: brackets) s =
      (skipDone bracket s).bind fun x => skipOpen steps x.1 (x.2.1 ++ brackets) x.2.2 := by
  rw [skipOpen, skipDone]
  split
  · next rest hs => cases h : bracket.skipName rest <;> simp_all
  · split <;> simp_all
  · simp_all

/-- What a step opens is still to be closed after it. -/
theorem skipDue_le {x : Bool × List Bracket × List Char} (h : skipDue s = some x) (count : Nat) :
    deepestFrom .value (count + x.2.1.length) x.2.2 ≤ deepestFrom .value count s := by
  rw [passes_skipBlanks s]
  unfold skipDue at h
  split at h
  · next rest hs =>
    rw [hs, deepestFrom_open _ (.inl rfl), passes_skipBlanks rest]
    split at h
    · next u hu =>
      obtain rfl := Option.some.inj h
      rw [hu]
      exact le_deepestFrom_close _ (.inl rfl) u
    · obtain rfl := Option.some.inj h
      exact Nat.le_refl _
  · next rest hs =>
    rw [hs, deepestFrom_open _ (.inr rfl), passes_skipBlanks rest]
    split at h
    · next u hu =>
      obtain rfl := Option.some.inj h
      rw [hu]
      exact le_deepestFrom_close _ (.inr rfl) u
    · obtain ⟨u, hu, rfl⟩ := Option.map_eq_some_iff.1 h
      rw [passes_of_skipName hu]
      exact Nat.le_refl _
  · obtain ⟨⟨j, u⟩, hsimple, rfl⟩ := Option.map_eq_some_iff.1 h
    rw [passes_of_readSimple hsimple]
    exact Nat.le_refl _

theorem skipDone_le {bracket : Bracket} {x : Bool × List Bracket × List Char} (h : skipDone bracket s = some x)
    (count : Nat) : deepestFrom .value (count + x.2.1.length) x.2.2 ≤ deepestFrom .value (count + 1) s := by
  rw [passes_skipBlanks s]
  unfold skipDone at h
  split at h
  · next rest hs =>
    obtain ⟨u, hu, rfl⟩ := Option.map_eq_some_iff.1 h
    rw [hs, deepestFrom_comma, passes_of_skipName hu]
    exact Nat.le_refl _
  · next c rest _ hs =>
    split at h
    · next hclose =>
      obtain rfl := Option.some.inj h
      have hbracket : c = ']' ∨ c = '\x7d' := by
        rw [hclose]
        cases bracket <;> simp [Bracket.close]
      rw [hs]
      exact le_deepestFrom_close _ hbracket rest
    · exact absurd h (by simp)
  · exact absurd h (by simp)

/-- What follows when all brackets have been closed nests no deeper than the text up to there. -/
theorem skipOpen_le {steps : Nat} {due : Bool} {brackets : List Bracket} (h : skipOpen steps due brackets s = some t)
    (count : Nat) : deepestFrom .value count t ≤ deepestFrom .value (count + brackets.length) s := by
  induction steps generalizing due brackets s with
  | zero => simp [skipOpen] at h
  | succ steps ih =>
    cases due with
    | true =>
      rw [skipOpen_due] at h
      obtain ⟨x, hx, h⟩ := Option.bind_eq_some_iff.1 h
      have hrest := ih h
      rw [List.length_append, Nat.add_comm x.2.1.length, ← Nat.add_assoc] at hrest
      exact Nat.le_trans hrest (skipDue_le hx _)
    | false =>
      cases brackets with
      | nil =>
        obtain rfl := Option.some.inj h
        exact Nat.le_refl _
      | cons bracket brackets =>
        rw [skipOpen_done] at h
        obtain ⟨x, hx, h⟩ := Option.bind_eq_some_iff.1 h
        have hrest := ih h
        rw [List.length_append, Nat.add_comm x.2.1.length, ← Nat.add_assoc] at hrest
        exact Nat.le_trans hrest (skipDone_le hx _)

/-! ## Values -/

/-- A value that is read from `s`, before `t`, nests no deeper than that text. -/
def NestsIn (s t : List Char) (n : Nat) : Prop :=
  ∀ count, max (count + n) (deepestFrom .value count t) ≤ deepestFrom .value count s

theorem Passes.nestsIn (h : Passes s t) : NestsIn s t 0 := by
  intro count
  have := le_deepestFrom t .value count
  rw [h count]
  omega

theorem readSimple_nestsIn {j : Json} (h : readSimple s = some (j, t)) : NestsIn s t (nesting j) := by
  have hnesting : nesting j = 0 := Nat.le_zero.1 (readSimple_sound h).2
  rw [hnesting]
  exact (passes_of_readSimple h).nestsIn

theorem NestsIn.of_passes {u : List Char} {n : Nat} (hs : Passes s t) (h : NestsIn t u n) : NestsIn s u n := by
  intro count
  rw [hs count]
  exact h count

end

section
variable {value : List Char → Option (Json × List Char)}
  (hvalue : ∀ {s t j}, value s = some (j, t) → NestsIn s t (nesting j))
include hvalue

/-- The items of an array, read from right after its opening bracket. -/
theorem readItems_nestsIn {room : Nat} {s t : List Char} {items : List Json}
    (h : readItems value room s = some (items, t)) (count : Nat) :
    (∀ item ∈ items, count + 1 + nesting item ≤ deepestFrom .value (count + 1) s) ∧
      deepestFrom .value count t ≤ deepestFrom .value (count + 1) s := by
  induction room generalizing s t items with
  | zero => simp [readItems] at h
  | succ room ih =>
    simp only [readItems, Option.bind_eq_bind, Option.bind_eq_some_iff] at h
    obtain ⟨⟨item, u⟩, hitem, h⟩ := h
    obtain ⟨hnesting, hrest⟩ := Nat.max_le.1 (hvalue hitem (count + 1))
    rw [passes_skipBlanks u] at hrest
    split at h
    · next v hv =>
      obtain ⟨rfl, rfl⟩ := Prod.mk.inj (Option.some.inj h)
      rw [hv] at hrest
      constructor
      · simpa using hnesting
      · exact Nat.le_trans (le_deepestFrom_close count (.inl rfl) v) hrest
    · next v hv =>
      obtain ⟨⟨rest, w⟩, hitems, heq⟩ := Option.bind_eq_some_iff.1 h
      obtain ⟨rfl, rfl⟩ := Prod.mk.inj (Option.some.inj heq)
      obtain ⟨hmore, hafter⟩ := ih hitems
      rw [hv, deepestFrom_comma] at hrest
      constructor
      · intro x hx
        rcases List.mem_cons.1 hx with rfl | hx
        · exact hnesting
        · exact Nat.le_trans (hmore x hx) hrest
      · exact Nat.le_trans hafter hrest
    · exact absurd h (by simp)

/-- The members of an object, read from right after its opening brace. -/
theorem readMembers_nestsIn {room : Nat} {s t : List Char} {members : List (Option String × Json)}
    (h : readMembers value room s = some (members, t)) (count : Nat) :
    (∀ m ∈ members, count + 1 + nesting m.2 ≤ deepestFrom .value (count + 1) s) ∧
      deepestFrom .value count t ≤ deepestFrom .value (count + 1) s := by
  induction room generalizing s t members with
  | zero => simp [readMembers] at h
  | succ room ih =>
    simp only [readMembers, Option.bind_eq_bind, Option.bind_eq_some_iff] at h
    obtain ⟨⟨name, s'⟩, hname, ⟨item, u⟩, hitem, h⟩ := h
    rw [passes_of_readName hname]
    obtain ⟨hnesting, hrest⟩ := Nat.max_le.1 (hvalue hitem (count + 1))
    rw [passes_skipBlanks u] at hrest
    split at h
    · next v hv =>
      obtain ⟨rfl, rfl⟩ := Prod.mk.inj (Option.some.inj h)
      rw [hv] at hrest
      constructor
      · simpa using hnesting
      · exact Nat.le_trans (le_deepestFrom_close count (.inr rfl) v) hrest
    · next v hv =>
      obtain ⟨⟨rest, w⟩, hmembers, heq⟩ := Option.bind_eq_some_iff.1 h
      obtain ⟨rfl, rfl⟩ := Prod.mk.inj (Option.some.inj heq)
      obtain ⟨hmore, hafter⟩ := ih hmembers
      rw [hv, deepestFrom_comma] at hrest
      constructor
      · intro m hm
        rcases List.mem_cons.1 hm with rfl | hm
        · exact hnesting
        · exact Nat.le_trans (hmore m hm) hrest
      · exact Nat.le_trans hafter hrest
    · exact absurd h (by simp)

end

theorem nestsIn_array {s t : List Char} {items : List Json}
    (h : ∀ count, (∀ item ∈ items, count + 1 + nesting item ≤ deepestFrom .value (count + 1) s) ∧
      deepestFrom .value count t ≤ deepestFrom .value (count + 1) s) :
    NestsIn ('[' :: s) t (nesting (.array items)) := by
  intro count
  obtain ⟨hitems, hrest⟩ := h count
  have hcount := le_deepestFrom s .value (count + 1)
  have hnesting : nestingItems items ≤ deepestFrom .value (count + 1) s - (count + 1) := by
    rw [nestingItems_le_iff]
    intro item hitem
    have := hitems item hitem
    omega
  rw [deepestFrom_open count (.inl rfl), nesting]
  omega

theorem nesting_objectOf_le {members : List (Option String × Json)} {n : Nat} (h : ∀ m ∈ members, nesting m.2 ≤ n) :
    nesting (objectOf members) ≤ n + 1 := by
  unfold objectOf
  split
  · next named hnamed =>
    have hnesting : nestingMembers named ≤ n := by
      rw [nestingMembers_le_iff]
      intro m hm
      obtain ⟨m', hm', heq⟩ := mem_of_mapM_some hnamed m hm
      obtain ⟨name, -, rfl⟩ := Option.map_eq_some_iff.1 heq
      exact h m' hm'
    rw [nesting]
    omega
  · exact Nat.zero_le _

theorem nestsIn_object {s t : List Char} {members : List (Option String × Json)}
    (h : ∀ count, (∀ m ∈ members, count + 1 + nesting m.2 ≤ deepestFrom .value (count + 1) s) ∧
      deepestFrom .value count t ≤ deepestFrom .value (count + 1) s) :
    NestsIn ('\x7b' :: s) t (nesting (objectOf members)) := by
  intro count
  obtain ⟨hmembers, hrest⟩ := h count
  have hcount := le_deepestFrom s .value (count + 1)
  have hnesting : nesting (objectOf members) ≤ deepestFrom .value (count + 1) s - (count + 1) + 1 := by
    apply nesting_objectOf_le
    intro m hm
    have := hmembers m hm
    omega
  rw [deepestFrom_open count (.inr rfl)]
  omega

/-- **A value nests no deeper than the text that it is read from.** -/
theorem readValue_nestsIn (room : Nat) {depth : Nat} {s t : List Char} {j : Json}
    (h : readValue room depth s = some (j, t)) : NestsIn s t (nesting j) := by
  induction depth generalizing s t j with
  | zero =>
    have hdeep {s : List Char} (h : readTooDeep room s = some (j, t)) : NestsIn s t (nesting j) := by
      obtain ⟨u, hskip, heq⟩ := Option.map_eq_some_iff.1 h
      obtain ⟨rfl, rfl⟩ := Prod.mk.inj heq
      intro count
      have hle := skipOpen_le hskip count
      have hcount := le_deepestFrom s .value count
      simp only [List.length_nil, Nat.add_zero, nesting] at hle ⊢
      omega
    rw [readValue] at h
    split at h
    · exact hdeep h
    · exact hdeep h
    · exact NestsIn.of_passes (passes_skipBlanks s) (readSimple_nestsIn h)
  | succ depth ih =>
    rw [readValue] at h
    apply NestsIn.of_passes (passes_skipBlanks s)
    split at h
    · next rest hs =>
      rw [hs]
      split at h
      · next u hu =>
        obtain ⟨rfl, rfl⟩ := Prod.mk.inj (Option.some.inj h)
        apply nestsIn_array
        intro count
        rw [passes_skipBlanks rest, hu]
        exact ⟨by simp, le_deepestFrom_close count (.inl rfl) u⟩
      · obtain ⟨⟨items, u⟩, hitems, heq⟩ := Option.map_eq_some_iff.1 h
        obtain ⟨rfl, rfl⟩ := Prod.mk.inj heq
        apply nestsIn_array
        intro count
        rw [passes_skipBlanks rest]
        exact readItems_nestsIn ih hitems count
    · next rest hs =>
      rw [hs]
      split at h
      · next u hu =>
        obtain ⟨rfl, rfl⟩ := Prod.mk.inj (Option.some.inj h)
        show NestsIn _ u (nesting (objectOf []))
        apply nestsIn_object
        intro count
        rw [passes_skipBlanks rest, hu]
        exact ⟨by simp, le_deepestFrom_close count (.inr rfl) u⟩
      · obtain ⟨⟨members, u⟩, hmembers, heq⟩ := Option.map_eq_some_iff.1 h
        obtain ⟨rfl, rfl⟩ := Prod.mk.inj heq
        apply nestsIn_object
        intro count
        rw [passes_skipBlanks rest]
        exact readMembers_nestsIn ih hmembers count
    · exact readSimple_nestsIn h

/-- **What is read from a document nests no deeper than its text.** -/
theorem nesting_le_bracketDepth {s : String} {j : Json} (h : parse? s = some j) : nesting j ≤ bracketDepth s := by
  obtain ⟨rest, hread, -⟩ := parseWithin?_eq_some_iff.1 h
  have := readValue_nestsIn _ hread 0
  rw [bracketDepth]
  omega

end Formulary.Json
