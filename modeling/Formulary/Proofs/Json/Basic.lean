import Formulary.Json.Basic

/-!
# What holds of all values inside a value

Some properties of a value are defined by going through what is inside it. Here they are said of all items
of a list and of all members at once.
-/

namespace Formulary.Json

/-! ## Nesting -/

theorem nestingItems_le_iff {items : List Json} {n : Nat} :
    nestingItems items ≤ n ↔ ∀ item ∈ items, nesting item ≤ n := by
  induction items with
  | nil => simp [nestingItems]
  | cons item items ih => simp only [nestingItems, Nat.max_le, ih, List.forall_mem_cons]

theorem nestingMembers_le_iff {members : List (String × Json)} {n : Nat} :
    nestingMembers members ≤ n ↔ ∀ m ∈ members, nesting m.2 ≤ n := by
  induction members with
  | nil => simp [nestingMembers]
  | cons m members ih => simp only [nestingMembers, Nat.max_le, ih, List.forall_mem_cons]

/-! ## Readable values -/

theorem readableItems_eq_all (items : List Json) : readableItems items = items.all readable := by
  induction items with
  | nil => rfl
  | cons item items ih => rw [readableItems, ih, List.all_cons]

theorem readableMembers_eq_all (members : List (String × Json)) :
    readableMembers members = members.all fun m => m.2.readable := by
  induction members with
  | nil => rfl
  | cons m members ih => rw [readableMembers, ih, List.all_cons]

/-! ## Numbers in range -/

mutual

/-- Whether the numbers in a value are ones that documents have. -/
def InRange : Json → Prop
  | .whole n => Fits n
  | .real x => x.isFinite = true
  | .array items => InRangeItems items
  | .object members => InRangeMembers members
  | _ => True

def InRangeItems : List Json → Prop
  | [] => True
  | item :: items => InRange item ∧ InRangeItems items

def InRangeMembers : List (String × Json) → Prop
  | [] => True
  | (_, item) :: members => InRange item ∧ InRangeMembers members

end

theorem inRangeItems_iff {items : List Json} : InRangeItems items ↔ ∀ item ∈ items, InRange item := by
  induction items with
  | nil => simp [InRangeItems]
  | cons item items ih => simp [InRangeItems, ih]

theorem inRangeMembers_iff {members : List (String × Json)} :
    InRangeMembers members ↔ ∀ m ∈ members, InRange m.2 := by
  induction members with
  | nil => simp [InRangeMembers]
  | cons m members ih => simp [InRangeMembers, ih]

end Formulary.Json
