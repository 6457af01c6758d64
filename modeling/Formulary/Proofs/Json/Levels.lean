import Formulary.Proofs.Json.Depth
import Formulary.Proofs.Json.RoundTrip

/-!
# Levels of a text

A text has a value however deep it nests (`Json.value?`). A document that nests at most `Json.deepest` brackets is read
as its value (`parse?_eq_value?`); from one that nests deeper nothing readable is read (`bracketDepth_le_deepest`).
-/

namespace Formulary.Json

/-- The value of a text, however deep it nests. -/
def value? (s : String) : Option Json :=
  parseWithin? (bracketDepth s) s

/-! ## Building more levels -/

section
variable {value value' : List Char → Option (Json × List Char)} {count bound : Nat}
  (hvalue : ∀ {s t j}, value s = some (j, t) → NestsIn s t (nesting j))
  (hagree : ∀ s, deepestFrom .value count s ≤ bound → value s = value' s)
include hvalue hagree

/-- Readers of items that agree up to a number of brackets read the same items up to there. -/
theorem readItems_congr_of_le (room : Nat) {s : List Char} (hs : deepestFrom .value count s ≤ bound) :
    readItems value room s = readItems value' room s := by
  induction room generalizing s with
  | zero => rfl
  | succ room ih =>
    rw [readItems_succ, readItems_succ, ← hagree s hs]
    cases hitem : value s with
    | none => rfl
    | some x =>
      obtain ⟨item, t⟩ := x
      have hle := (Nat.max_le.1 (hvalue hitem count)).2
      rw [passes_skipBlanks t] at hle
      have hmore : readMoreItems value room t = readMoreItems value' room t := by
        unfold readMoreItems
        split
        · rfl
        · next rest hrest =>
          rw [hrest, deepestFrom_comma] at hle
          exact ih (Nat.le_trans hle hs)
        · rfl
      rw [Option.bind_some, Option.bind_some, hmore]

/-- Readers of values that agree up to a number of brackets read the same members up to there. -/
theorem readMembers_congr_of_le (room : Nat) {s : List Char} (hs : deepestFrom .value count s ≤ bound) :
    readMembers value room s = readMembers value' room s := by
  induction room generalizing s with
  | zero => rfl
  | succ room ih =>
    rw [readMembers_succ, readMembers_succ]
    cases hname : readName s with
    | none => rfl
    | some n =>
      obtain ⟨name, u⟩ := n
      rw [passes_of_readName hname] at hs
      simp only [Option.bind_some]
      rw [← hagree u hs]
      cases hitem : value u with
      | none => rfl
      | some x =>
        obtain ⟨item, t⟩ := x
        have hle := (Nat.max_le.1 (hvalue hitem count)).2
        rw [passes_skipBlanks t] at hle
        have hmore : readMoreMembers value room t = readMoreMembers value' room t := by
          unfold readMoreMembers
          split
          · rfl
          · next rest hrest =>
            rw [hrest, deepestFrom_comma] at hle
            exact ih (Nat.le_trans hle hs)
          · rfl
        rw [Option.bind_some, Option.bind_some, hmore]

end

theorem readValue_succ_depth (room : Nat) {depth count : Nat} {s : List Char}
    (h : deepestFrom .value count s ≤ count + depth) : readValue room (depth + 1) s = readValue room depth s := by
  rw [passes_skipBlanks s] at h
  induction depth generalizing count s with
  | zero =>
    have hopen {c : Char} (hc : c = '[' ∨ c = '\x7b') (rest : List Char) : skipBlanks s ≠ c :: rest := by
      intro hs
      have hle := le_deepestFrom rest .value (count + 1)
      rw [hs, deepestFrom_open count hc] at h
      omega
    rw [readValue, readValue]
    split
    · next rest hs => exact absurd hs (hopen (.inl rfl) rest)
    · next rest hs => exact absurd hs (hopen (.inr rfl) rest)
    · rfl
  | succ depth ih =>
    have hbelow (rest : List Char) (h : deepestFrom .value (count + 1) rest ≤ count + (depth + 1)) :
        readValue room (depth + 1) rest = readValue room depth rest := by
      have hle : deepestFrom .value (count + 1) (skipBlanks rest) ≤ count + 1 + depth := by
        rw [← passes_skipBlanks rest]
        omega
      exact ih hle
    rw [readValue, readValue]
    split
    · next rest hs =>
      rw [hs, deepestFrom_open count (.inl rfl), passes_skipBlanks rest] at h
      split
      · rfl
      · rw [readItems_congr_of_le (readValue_nestsIn room) hbelow room h]
    · next rest hs =>
      rw [hs, deepestFrom_open count (.inr rfl), passes_skipBlanks rest] at h
      split
      · rfl
      · rw [readMembers_congr_of_le (readValue_nestsIn room) hbelow room h]
    · rfl

/-- **Levels that a text does not have make no difference** to what is read. -/
theorem parseWithin?_of_le {s : String} {depth : Nat} (h : bracketDepth s ≤ depth) :
    parseWithin? depth s = value? s := by
  have hread : readValue s.length depth s.toList = readValue s.length (bracketDepth s) s.toList := by
    induction h with
    | refl => rfl
    | @step depth h ih =>
      have hle : deepestFrom .value 0 s.toList ≤ 0 + depth := by
        rw [Nat.zero_add]
        exact h
      rw [readValue_succ_depth _ hle, ih]
  rw [value?, parseWithin?, parseWithin?, hread]

/-- A document that does not nest too deep is read as its value. -/
theorem parse?_eq_value? {s : String} (h : bracketDepth s ≤ deepest) : parse? s = value? s :=
  parseWithin?_of_le h

/-- A written value is the value of its text. -/
theorem value?_render (l : Layout) {j : Json} (hj : Restorable j) : value? (j.render l) = some j := by
  rw [value?, bracketDepth_render, parseWithin?_render l hj, cut_of_nesting_le j (Nat.le_refl _)]

/-! ## Texts that are read whole -/

/-- The text between two places has no more brackets inside one another than are open at once at its end, or
`n` in it. -/
def SpansAtMost (s t : List Char) (n : Nat) : Prop :=
  ∀ count, deepestFrom .value count s ≤ max (count + n) (deepestFrom .value count t)

theorem SpansAtMost.of_passes {s t u : List Char} {n : Nat} (hs : Passes s t) (h : SpansAtMost t u n) :
    SpansAtMost s u n := by
  intro count
  rw [hs count]
  exact h count

theorem Passes.spansAtMost {s t : List Char} (h : Passes s t) (n : Nat) : SpansAtMost s t n := by
  intro count
  rw [h count]
  exact Nat.le_max_right ..

theorem deepestFrom_closing (count : Nat) {c : Char} (h : c = ']' ∨ c = '\x7d') (s : List Char) :
    deepestFrom .value (count + 1) (c :: s) = max (count + 1) (deepestFrom .value count s) :=
  deepestFrom_close count .compact 0 h s

section
variable {value : List Char → Option (Json × List Char)}
  (hvalue : ∀ {s t j}, value s = some (j, t) → j.readable = true → SpansAtMost s t (nesting j))
include hvalue

theorem readItems_spansAtMost {room : Nat} {s t : List Char} {items : List Json}
    (h : readItems value room s = some (items, t)) (hreadable : readableItems items = true) (count : Nat) :
    deepestFrom .value (count + 1) s ≤ max (count + 1 + nestingItems items) (deepestFrom .value count t) := by
  induction room generalizing s t items with
  | zero => simp [readItems] at h
  | succ room ih =>
    rw [readItems_succ] at h
    obtain ⟨⟨item, u⟩, hitem, h⟩ := Option.bind_eq_some_iff.1 h
    obtain ⟨⟨rest, v⟩, hmore, heq⟩ := Option.map_eq_some_iff.1 h
    dsimp only at hmore heq
    obtain ⟨rfl, rfl⟩ := Prod.mk.inj heq
    obtain ⟨hgood, hrest⟩ := Bool.and_eq_true_iff.1 hreadable
    have hle := hvalue hitem hgood (count + 1)
    rw [passes_skipBlanks u] at hle
    rw [nestingItems]
    unfold readMoreItems at hmore
    split at hmore
    · next w hw =>
      obtain ⟨rfl, rfl⟩ := Prod.mk.inj (Option.some.inj hmore)
      rw [hw, deepestFrom_closing count (.inl rfl)] at hle
      omega
    · next w hw =>
      have hmore := ih hmore hrest
      rw [hw, deepestFrom_comma] at hle
      omega
    · exact absurd hmore (by simp)

theorem readMembers_spansAtMost {room : Nat} {s t : List Char} {members : List (Option String × Json)}
    {n : Nat} (h : readMembers value room s = some (members, t))
    (hmembers : ∀ m ∈ members, m.2.readable = true ∧ nesting m.2 ≤ n) (count : Nat) :
    deepestFrom .value (count + 1) s ≤ max (count + 1 + n) (deepestFrom .value count t) := by
  induction room generalizing s t members with
  | zero => simp [readMembers] at h
  | succ room ih =>
    rw [readMembers_succ] at h
    obtain ⟨⟨name, s'⟩, hname, h⟩ := Option.bind_eq_some_iff.1 h
    obtain ⟨⟨item, u⟩, hitem, h⟩ := Option.bind_eq_some_iff.1 h
    obtain ⟨⟨rest, v⟩, hmore, heq⟩ := Option.map_eq_some_iff.1 h
    dsimp only at hmore heq
    obtain ⟨rfl, rfl⟩ := Prod.mk.inj heq
    obtain ⟨⟨hgood, hn⟩, hrest⟩ := List.forall_mem_cons.1 hmembers
    have hle := hvalue hitem hgood (count + 1)
    rw [passes_skipBlanks u] at hle
    rw [passes_of_readName hname]
    dsimp only at hn hle ⊢
    unfold readMoreMembers at hmore
    split at hmore
    · next w hw =>
      obtain ⟨rfl, rfl⟩ := Prod.mk.inj (Option.some.inj hmore)
      rw [hw, deepestFrom_closing count (.inr rfl)] at hle
      omega
    · next w hw =>
      have hmore := ih hmore hrest
      rw [hw, deepestFrom_comma] at hle
      omega
    · exact absurd hmore (by simp)

end

theorem mem_of_mapM_some_left {α β : Type} {f : α → Option β} {xs : List α} {ys : List β}
    (h : xs.mapM f = some ys) : ∀ x ∈ xs, ∃ y ∈ ys, f x = some y := by
  induction xs generalizing ys with
  | nil => simp
  | cons x xs ih =>
    simp only [List.mapM_cons, Option.bind_eq_bind, Option.bind_eq_some_iff] at h
    obtain ⟨y, hy, ys, hys, heq⟩ := h
    obtain rfl := Option.some.inj heq
    intro z hz
    rcases List.mem_cons.1 hz with rfl | hz
    · exact ⟨y, List.mem_cons_self, hy⟩
    · obtain ⟨w, hw, hzw⟩ := ih hys z hz
      exact ⟨w, List.mem_cons_of_mem _ hw, hzw⟩

/-- An object that is readable has all its members, and all of them are readable. -/
theorem objectOf_readable {members : List (Option String × Json)} (h : (objectOf members).readable = true) :
    ∃ n, nesting (objectOf members) = n + 1 ∧ ∀ m ∈ members, m.2.readable = true ∧ nesting m.2 ≤ n := by
  unfold objectOf at h ⊢
  split at h
  · next named hnamed =>
    rw [readable, readableMembers_eq_all, List.all_eq_true] at h
    refine ⟨nestingMembers named, rfl, fun m hm => ?_⟩
    obtain ⟨m', hm', heq⟩ := mem_of_mapM_some_left hnamed m hm
    obtain ⟨name, -, rfl⟩ := Option.map_eq_some_iff.1 heq
    exact ⟨h _ hm', nestingMembers_le_iff.1 (Nat.le_refl _) _ hm'⟩
  · exact absurd h (by simp [readable])

/-- **A text nests no deeper than the value that is read from it**, if all of it is readable. -/
theorem readValue_spansAtMost (room : Nat) {depth : Nat} {s t : List Char} {j : Json}
    (h : readValue room depth s = some (j, t)) (hreadable : j.readable = true) : SpansAtMost s t (nesting j) := by
  apply SpansAtMost.of_passes (passes_skipBlanks s)
  induction depth generalizing s t j with
  | zero =>
    have hdeep {s : List Char} (h : readTooDeep room s = some (j, t)) : j.readable = false := by
      obtain ⟨u, -, heq⟩ := Option.map_eq_some_iff.1 h
      obtain ⟨rfl, -⟩ := Prod.mk.inj heq
      rfl
    rw [readValue] at h
    split at h
    · exact absurd hreadable (by rw [hdeep h]; decide)
    · exact absurd hreadable (by rw [hdeep h]; decide)
    · exact (passes_of_readSimple h).spansAtMost _
  | succ depth ih =>
    have hbelow {s t : List Char} {j : Json} (h : readValue room depth s = some (j, t))
        (hreadable : j.readable = true) : SpansAtMost s t (nesting j) :=
      SpansAtMost.of_passes (passes_skipBlanks s) (ih h hreadable)
    rw [readValue] at h
    split at h
    · next rest hs =>
      rw [hs]
      intro count
      rw [deepestFrom_open count (.inl rfl), passes_skipBlanks rest]
      split at h
      · next u hu =>
        obtain ⟨rfl, rfl⟩ := Prod.mk.inj (Option.some.inj h)
        rw [hu, deepestFrom_closing count (.inl rfl), nesting]
        omega
      · obtain ⟨⟨items, u⟩, hitems, heq⟩ := Option.map_eq_some_iff.1 h
        obtain ⟨rfl, rfl⟩ := Prod.mk.inj heq
        rw [readable] at hreadable
        have hle := readItems_spansAtMost hbelow hitems hreadable count
        rw [nesting]
        omega
    · next rest hs =>
      rw [hs]
      intro count
      rw [deepestFrom_open count (.inr rfl), passes_skipBlanks rest]
      split at h
      · next u hu =>
        obtain ⟨rfl, rfl⟩ := Prod.mk.inj (Option.some.inj h)
        rw [hu, deepestFrom_closing count (.inr rfl), nesting]
        omega
      · obtain ⟨⟨members, u⟩, hmembers, heq⟩ := Option.map_eq_some_iff.1 h
        obtain ⟨rfl, rfl⟩ := Prod.mk.inj heq
        obtain ⟨n, hn, hmember⟩ := objectOf_readable hreadable
        have hle := readMembers_spansAtMost hbelow hmembers hmember count
        omega
    · exact (passes_of_readSimple h).spansAtMost _

/-- **Nothing readable is read from a text that nests too deep.** -/
theorem bracketDepth_le_deepest {s : String} {j : Json} (h : parse? s = some j) (hreadable : j.readable = true) :
    bracketDepth s ≤ deepest := by
  have hsound := (parse?_sound h).2
  obtain ⟨rest, hread, hrest⟩ := parseWithin?_eq_some_iff.1 h
  have hle := readValue_spansAtMost _ hread hreadable 0
  rw [passes_skipBlanks rest, hrest] at hle
  simp only [deepestFrom] at hle
  rw [bracketDepth]
  omega

end Formulary.Json
