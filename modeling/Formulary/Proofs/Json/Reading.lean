import Formulary.Json.Reader
import Formulary.Proofs.Decimal.Finite
import Formulary.Proofs.Json.Basic

/-!
# What a reader can return

Whatever is written in a document, the numbers in the value that is read are in range: whole numbers fit, and
doubles are finite. And the value is not nested deeper than the levels that are built: `readValue_sound`.
-/

namespace Formulary.Json

/-- Whether a value has its numbers in range and is nested at most `depth` deep. -/
def Sound (depth : Nat) (j : Json) : Prop :=
  InRange j ∧ nesting j ≤ depth

/-! ## Values without parts -/

theorem numberOfParts_sound (negative : Bool) (integer : List Char) (fraction : Option (List Char))
    (exponent : Option Int) : Sound 0 (numberOfParts negative integer fraction exponent) := by
  unfold numberOfParts
  generalize (if negative = true then -(digitsValue integer : Int) else digitsValue integer) = whole
  simp only
  split
  · next h => exact ⟨by simpa only [InRange] using h.2.2.1, by simp [nesting]⟩
  split
  · next hfinite =>
    refine ⟨?_, by simp [nesting]⟩
    simp only [InRange]
    split
    · exact isFinite_neg hfinite
    · exact hfinite
  · exact ⟨by simp [InRange], by simp [nesting]⟩

theorem readNumber_sound {s t : List Char} {j : Json} (h : readNumber s = some (j, t)) : Sound 0 j := by
  simp only [readNumber, Option.bind_eq_bind, Option.bind_eq_some_iff] at h
  obtain ⟨integer, -, fraction, -, exponent, -, heq⟩ := h
  obtain ⟨rfl, -⟩ := Prod.mk.inj (Option.some.inj heq)
  exact numberOfParts_sound ..

theorem readSimple_sound {s t : List Char} {j : Json} (h : readSimple s = some (j, t)) : Sound 0 j := by
  have hword {k : Json} {u v : List Char} (hk : InRange k ∧ nesting k = 0) (h : some (k, u) = some (j, v)) :
      Sound 0 j := by
    obtain ⟨rfl, -⟩ := Prod.mk.inj (Option.some.inj h)
    exact ⟨hk.1, Nat.le_of_eq hk.2⟩
  unfold readSimple at h
  split at h
  · exact hword (by simp [InRange, nesting]) h
  · exact hword (by simp [InRange, nesting]) h
  · exact hword (by simp [InRange, nesting]) h
  · obtain ⟨⟨text, u⟩, -, heq⟩ := Option.map_eq_some_iff.1 h
    obtain ⟨rfl, -⟩ := Prod.mk.inj heq
    cases text <;> simp [Sound, InRange, nesting]
  · exact readNumber_sound h

/-! ## Items and members -/

section
variable {value : List Char → Option (Json × List Char)} {good : Json → Prop}

theorem readItems_forall (hvalue : ∀ {s t j}, value s = some (j, t) → good j) {room : Nat} {s t : List Char}
    {items : List Json} (h : readItems value room s = some (items, t)) : ∀ item ∈ items, good item := by
  induction room generalizing s t items with
  | zero => simp [readItems] at h
  | succ room ih =>
    simp only [readItems, Option.bind_eq_bind, Option.bind_eq_some_iff] at h
    obtain ⟨⟨item, s'⟩, hitem, h⟩ := h
    have hgood : good item := hvalue hitem
    split at h
    · obtain ⟨rfl, -⟩ := Prod.mk.inj (Option.some.inj h)
      simpa using hgood
    · obtain ⟨⟨rest, t'⟩, hrest, heq⟩ := Option.bind_eq_some_iff.1 h
      obtain ⟨rfl, -⟩ := Prod.mk.inj (Option.some.inj heq)
      exact List.forall_mem_cons.2 ⟨hgood, ih hrest⟩
    · exact absurd h (by simp)

theorem readMembers_forall (hvalue : ∀ {s t j}, value s = some (j, t) → good j) {room : Nat} {s t : List Char}
    {members : List (Option String × Json)} (h : readMembers value room s = some (members, t)) :
    ∀ m ∈ members, good m.2 := by
  induction room generalizing s t members with
  | zero => simp [readMembers] at h
  | succ room ih =>
    simp only [readMembers, Option.bind_eq_bind, Option.bind_eq_some_iff] at h
    obtain ⟨⟨name, s'⟩, -, ⟨item, s''⟩, hitem, h⟩ := h
    have hgood : good item := hvalue hitem
    split at h
    · obtain ⟨rfl, -⟩ := Prod.mk.inj (Option.some.inj h)
      simpa using hgood
    · obtain ⟨⟨rest, t'⟩, hrest, heq⟩ := Option.bind_eq_some_iff.1 h
      obtain ⟨rfl, -⟩ := Prod.mk.inj (Option.some.inj heq)
      exact List.forall_mem_cons.2 ⟨hgood, ih hrest⟩
    · exact absurd h (by simp)

end

theorem mem_of_mapM_some {α β : Type} {f : α → Option β} {xs : List α} {ys : List β} (h : xs.mapM f = some ys) :
    ∀ y ∈ ys, ∃ x ∈ xs, f x = some y := by
  induction xs generalizing ys with
  | nil =>
    obtain rfl : [] = ys := Option.some.inj h
    simp
  | cons x xs ih =>
    simp only [List.mapM_cons, Option.bind_eq_bind, Option.bind_eq_some_iff] at h
    obtain ⟨y, hy, ys, hys, heq⟩ := h
    obtain rfl := Option.some.inj heq
    intro z hz
    rcases List.mem_cons.1 hz with rfl | hz
    · exact ⟨x, List.mem_cons_self, hy⟩
    · obtain ⟨w, hw, hwz⟩ := ih hys z hz
      exact ⟨w, List.mem_cons_of_mem _ hw, hwz⟩

theorem array_sound {depth : Nat} {items : List Json} (h : ∀ item ∈ items, Sound depth item) :
    Sound (depth + 1) (.array items) := by
  have hnesting : nestingItems items ≤ depth := nestingItems_le_iff.2 fun item hitem => (h item hitem).2
  constructor
  · rw [InRange, inRangeItems_iff]
    intro item hitem
    exact (h item hitem).1
  · rw [nesting]
    omega

theorem object_sound {depth : Nat} {members : List (String × Json)} (h : ∀ m ∈ members, Sound depth m.2) :
    Sound (depth + 1) (.object members) := by
  have hnesting : nestingMembers members ≤ depth := nestingMembers_le_iff.2 fun m hm => (h m hm).2
  constructor
  · rw [InRange, inRangeMembers_iff]
    intro m hm
    exact (h m hm).1
  · rw [nesting]
    omega

/-- The items of an array are nested one level less than the array. -/
theorem Sound.of_array {depth : Nat} {items : List Json} (h : Sound depth (.array items)) :
    ∃ d, depth = d + 1 ∧ ∀ item ∈ items, Sound d item := by
  obtain ⟨hrange, hnesting⟩ := h
  rw [InRange] at hrange
  rw [nesting] at hnesting
  refine ⟨depth - 1, by omega, fun item hitem => ⟨inRangeItems_iff.1 hrange item hitem, ?_⟩⟩
  exact nestingItems_le_iff.1 (by omega) item hitem

/-- The values of the members of an object are nested one level less than the object. -/
theorem Sound.of_object {depth : Nat} {members : List (String × Json)} (h : Sound depth (.object members)) :
    ∃ d, depth = d + 1 ∧ ∀ m ∈ members, Sound d m.2 := by
  obtain ⟨hrange, hnesting⟩ := h
  rw [InRange] at hrange
  rw [nesting] at hnesting
  refine ⟨depth - 1, by omega, fun m hm => ⟨inRangeMembers_iff.1 hrange m hm, ?_⟩⟩
  exact nestingMembers_le_iff.1 (by omega) m hm

theorem objectOf_sound {depth : Nat} {members : List (Option String × Json)}
    (h : ∀ m ∈ members, Sound depth m.2) : Sound (depth + 1) (objectOf members) := by
  unfold objectOf
  split
  · next named hnamed =>
    apply object_sound
    intro m hm
    obtain ⟨m', hm', heq⟩ := mem_of_mapM_some hnamed m hm
    obtain ⟨name, -, rfl⟩ := Option.map_eq_some_iff.1 heq
    exact h m' hm'
  · exact ⟨by simp [InRange], by simp [nesting]⟩

/-! ## Values -/

theorem Sound.mono {d e : Nat} (h : d ≤ e) {j : Json} (hj : Sound d j) : Sound e j :=
  ⟨hj.1, Nat.le_trans hj.2 h⟩

/-- **What is read has its numbers in range** and is nested no deeper than it may be. -/
theorem readValue_sound (room : Nat) {depth : Nat} {s t : List Char} {j : Json}
    (h : readValue room depth s = some (j, t)) : Sound depth j := by
  induction depth generalizing s t j with
  | zero =>
    have hdeep {s : List Char} (h : readTooDeep room s = some (j, t)) : Sound 0 j := by
      obtain ⟨u, -, heq⟩ := Option.map_eq_some_iff.1 h
      obtain ⟨rfl, -⟩ := Prod.mk.inj heq
      simp [Sound, InRange, nesting]
    rw [readValue] at h
    split at h
    · exact hdeep h
    · exact hdeep h
    · exact readSimple_sound h
  | succ depth ih =>
    rw [readValue] at h
    split at h
    · split at h
      · obtain ⟨rfl, -⟩ := Prod.mk.inj (Option.some.inj h)
        exact array_sound (by simp)
      · obtain ⟨⟨items, u⟩, hitems, heq⟩ := Option.map_eq_some_iff.1 h
        obtain ⟨rfl, -⟩ := Prod.mk.inj heq
        exact array_sound (readItems_forall ih hitems)
    · split at h
      · obtain ⟨rfl, -⟩ := Prod.mk.inj (Option.some.inj h)
        exact object_sound (by simp)
      · obtain ⟨⟨members, u⟩, hmembers, heq⟩ := Option.map_eq_some_iff.1 h
        obtain ⟨rfl, -⟩ := Prod.mk.inj heq
        exact objectOf_sound (readMembers_forall ih hmembers)
    · exact (readSimple_sound h).mono (Nat.zero_le _)

/-- A text holds the value that is read from it if only blanks follow. -/
theorem parseWithin?_eq_some_iff {depth : Nat} {s : String} {j : Json} :
    parseWithin? depth s = some j ↔
      ∃ rest, readValue s.length depth s.toList = some (j, rest) ∧ skipBlanks rest = [] := by
  unfold parseWithin?
  cases readValue s.length depth s.toList with
  | none => simp
  | some x =>
    obtain ⟨k, rest⟩ := x
    by_cases hrest : skipBlanks rest = []
    · simp [hrest]
    · simp only [if_neg hrest]
      constructor
      · intro h
        exact absurd h (by simp)
      · rintro ⟨rest', heq, hrest'⟩
        obtain ⟨-, rfl⟩ := Prod.mk.inj (Option.some.inj heq)
        exact absurd hrest' hrest

theorem parse?_sound {s : String} {j : Json} (h : parse? s = some j) : Sound deepest j := by
  obtain ⟨rest, hread, -⟩ := parseWithin?_eq_some_iff.1 h
  exact readValue_sound _ hread

end Formulary.Json
