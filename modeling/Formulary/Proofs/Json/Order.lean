import Formulary.Proofs.Json.Basic
import Formulary.Proofs.Json.Layout
import Formulary.Proofs.Table

/-!
# The order of members

Values are the same up to the order of members if they have one canonical form (`Json.Shuffled`). This is asked only of
values in which no object gives a name twice (`Json.Distinct`), since of two members with one name the canonical form
keeps the last.
-/

namespace Formulary.Json

/-- Whether no object inside a value gives a name twice. -/
inductive Distinct : Json → Prop where
  | simple {j : Json} : j.isSimple = true → Distinct j
  | array {items : List Json} : (∀ j ∈ items, Distinct j) → Distinct (.array items)
  | object {members : List (String × Json)} :
    (members.map (·.1)).Nodup → (∀ m ∈ members, Distinct m.2) → Distinct (.object members)

/-- Whether two values are the same but for the order of the members of objects. -/
structure Shuffled (j j' : Json) : Prop where
  left : Distinct j
  right : Distinct j'
  canonical : j.canonical = j'.canonical

/-! ## Canonical forms -/

theorem canonicalItems_eq_map (items : List Json) : canonicalItems items = items.map canonical := by
  induction items with
  | nil => rfl
  | cons item items ih => rw [canonicalItems, ih, List.map_cons]

theorem canonicalMembers_eq_map (members : List (String × Json)) :
    canonicalMembers members = members.map fun m => (m.1, m.2.canonical) := by
  induction members with
  | nil => rfl
  | cons m members ih => rw [canonicalMembers, ih, List.map_cons]

theorem canonical_of_isSimple {j : Json} (h : j.isSimple = true) : j.canonical = j := by
  cases j with
  | array items => exact absurd h (by simp [isSimple])
  | object members => exact absurd h (by simp [isSimple])
  | _ => rfl

theorem canonical_array (items : List Json) : canonical (.array items) = .array (items.map canonical) := by
  rw [canonical, canonicalItems_eq_map]

/-- The members of an object without repetitions are only put in another order. -/
theorem exists_canonical_object {members : List (String × Json)} (h : (members.map (·.1)).Nodup) :
    ∃ members', canonical (.object members) = .object members' ∧
      members'.Perm (members.map fun m => (m.1, m.2.canonical)) := by
  refine ⟨_, by rw [canonical, canonicalMembers_eq_map], Table.entries_ofList_perm ?_⟩
  rw [List.map_map]
  exact h

/-- What the canonical forms of some members have if the members have it, the members of the canonical form have. -/
theorem forall_of_perm_canonical {P : Json → Prop} {members members' : List (String × Json)}
    (hperm : members'.Perm (members.map fun m => (m.1, m.2.canonical)))
    (h : ∀ m ∈ members, (P m.2.canonical ↔ P m.2)) : (∀ m ∈ members', P m.2) ↔ ∀ m ∈ members, P m.2 := by
  have hmembers : (∀ m ∈ members', P m.2) ↔ ∀ m ∈ members, P m.2.canonical := by
    simp only [hperm.mem_iff, List.forall_mem_map]
  rw [hmembers]
  exact forall₂_congr h

/-! ## What a canonical form keeps -/

theorem Distinct.nesting_canonical_le_iff {j : Json} (h : Distinct j) (n : Nat) :
    nesting j.canonical ≤ n ↔ nesting j ≤ n := by
  induction h generalizing n with
  | simple h => rw [canonical_of_isSimple h]
  | array h ih =>
    -- an array is one level deeper than its items, so the bound goes down by one
    cases n with
    | zero => simp [canonical_array, nesting]
    | succ n =>
      simp only [canonical_array, nesting, Nat.add_le_add_iff_right, nestingItems_le_iff, List.forall_mem_map]
      exact forall₂_congr fun j hj => ih j hj n
  | object hnodup h ih =>
    obtain ⟨members', heq, hperm⟩ := exists_canonical_object hnodup
    cases n with
    | zero => simp [heq, nesting]
    | succ n =>
      simp only [heq, nesting, Nat.add_le_add_iff_right, nestingMembers_le_iff]
      exact forall_of_perm_canonical (P := fun j => nesting j ≤ n) hperm fun m hm => ih m hm n

theorem Distinct.nesting_canonical {j : Json} (h : Distinct j) : nesting j.canonical = nesting j :=
  Nat.le_antisymm ((h.nesting_canonical_le_iff _).2 (Nat.le_refl _)) ((h.nesting_canonical_le_iff _).1 (Nat.le_refl _))

theorem Distinct.readable_canonical_iff {j : Json} (h : Distinct j) :
    j.canonical.readable = true ↔ j.readable = true := by
  induction h with
  | simple h => rw [canonical_of_isSimple h]
  | array h ih =>
    simp only [canonical_array, readable, readableItems_eq_all, List.all_eq_true, List.forall_mem_map]
    exact forall₂_congr ih
  | object hnodup h ih =>
    obtain ⟨members', heq, hperm⟩ := exists_canonical_object hnodup
    simp only [heq, readable, readableMembers_eq_all, List.all_eq_true]
    exact forall_of_perm_canonical (P := fun j => j.readable = true) hperm ih

theorem Distinct.restorable_canonical_iff {j : Json} (h : Distinct j) : Restorable j.canonical ↔ Restorable j := by
  induction h with
  | simple h => rw [canonical_of_isSimple h]
  | array h ih =>
    simp only [canonical_array, Restorable, restorableItems_iff, List.forall_mem_map]
    exact forall₂_congr ih
  | object hnodup h ih =>
    obtain ⟨members', heq, hperm⟩ := exists_canonical_object hnodup
    simp only [heq, Restorable, restorableMembers_iff]
    exact forall_of_perm_canonical hperm ih

/-! ## Values that are the same up to order -/

theorem Distinct.shuffled {j : Json} (h : Distinct j) : Shuffled j j := ⟨h, h, rfl⟩

namespace Shuffled
variable {j j' : Json} (h : Shuffled j j')
include h

theorem nesting_eq : nesting j' = nesting j := by
  rw [← h.left.nesting_canonical, ← h.right.nesting_canonical, h.canonical]

theorem restorable_iff : Restorable j' ↔ Restorable j := by
  rw [← h.left.restorable_canonical_iff, ← h.right.restorable_canonical_iff, h.canonical]

end Shuffled

/-- Members in another order make an object that is the same up to order. -/
theorem shuffled_of_perm {members members' : List (String × Json)} (h : Distinct (.object members))
    (hperm : members.Perm members') : Shuffled (.object members) (.object members') := by
  cases h with
  | simple h => exact absurd h (by simp [isSimple])
  | object hnodup h =>
    have hnodup' : (members'.map (·.1)).Nodup := (hperm.map _).nodup_iff.1 hnodup
    refine ⟨.object hnodup h, .object hnodup' fun m hm => h m (hperm.mem_iff.2 hm), ?_⟩
    rw [canonical, canonical, canonicalMembers_eq_map, canonicalMembers_eq_map,
      Table.ofList_perm (hperm.map _) (by rw [List.map_map]; exact hnodup)]

end Formulary.Json
