import Mathlib.Data.List.Induction
import Mathlib.Data.List.Nodup
import Mathlib.Data.List.Perm.Basic
import Formulary.Table

/-!
# Tables from lists

In the table that a list of entries describes each name has the last of its entries (`Table.get?_ofList`). Without
repetitions the order of the list does not matter (`Table.ofList_perm`); with them there is a first entry whose name was
there before (`exists_first_repetition`).
-/

namespace Formulary

/-- Among values whose names repeat there is a first one whose name was there before. -/
theorem exists_first_repetition {α κ : Type} {name : α → κ} {xs : List α} (h : ¬ (xs.map name).Nodup) :
    ∃ before x after, xs = before ++ x :: after ∧ (before.map name).Nodup ∧ name x ∈ before.map name := by
  induction xs using List.reverseRecOn with
  | nil => simp at h
  | append_singleton rest x ih =>
    by_cases hrest : (rest.map name).Nodup
    · refine ⟨rest, x, [], rfl, hrest, ?_⟩
      by_contra hx
      apply h
      rw [List.map_append, List.nodup_append]
      refine ⟨hrest, by simp, ?_⟩
      rintro a ha b hb rfl
      exact hx (by simpa [List.mem_singleton.1 hb] using ha)
    · obtain ⟨before, y, after, rfl, hbefore, hy⟩ := ih hrest
      exact ⟨before, y, after ++ [x], by simp, hbefore, hy⟩

namespace Table
variable {κ : Type} [Named κ] {ν : Type} [DecidableEq κ]

omit [Named κ] in
/-- Where no name repeats, a name has the value of its only entry. -/
theorem find?_eq_some_iff {entries : List (κ × ν)} (h : (entries.map (·.1)).Nodup) {k : κ} {v : ν} :
    find? k entries = some v ↔ (k, v) ∈ entries := by
  induction entries with
  | nil => simp [find?]
  | cons entry rest ih =>
    obtain ⟨k', v'⟩ := entry
    obtain ⟨hfresh, hrest⟩ := List.nodup_cons.1 h
    by_cases hk : k = k'
    · subst hk
      have hnone : (k, v) ∉ rest := fun hmem => hfresh (List.mem_map.2 ⟨_, hmem, rfl⟩)
      simp [find?, hnone, eq_comm]
    · simp [find?, hk, ih hrest]

omit [Named κ] in
theorem find?_perm {xs ys : List (κ × ν)} (h : xs.Perm ys) (hxs : (xs.map (·.1)).Nodup) (k : κ) :
    find? k xs = find? k ys := by
  have hys : (ys.map (·.1)).Nodup := (h.map _).nodup_iff.1 hxs
  ext v
  rw [find?_eq_some_iff hxs, find?_eq_some_iff hys, h.mem_iff]

omit [DecidableEq κ] in
/-- No name stands twice in a table. -/
theorem nodup_keys (t : Table κ ν) : (t.entries.map (·.1)).Nodup :=
  t.keys_pairwise.imp Precedes.ne

theorem ofList_concat (entries : List (κ × ν)) (x : κ × ν) :
    ofList (entries ++ [x]) = (ofList entries).insert x.1 x.2 := by
  rw [ofList, List.foldl_append]
  rfl

/-- **Of the entries for a name the last counts.** -/
theorem get?_ofList (entries : List (κ × ν)) (k : κ) : (ofList entries).get? k = find? k entries.reverse := by
  induction entries using List.reverseRecOn with
  | nil => rfl
  | append_singleton entries x ih =>
    rw [ofList_concat, get?_insert, ih, List.reverse_concat, find?]

theorem get?_ofList_of_nodup {entries : List (κ × ν)} (h : (entries.map (·.1)).Nodup) (k : κ) :
    (ofList entries).get? k = find? k entries := by
  have hreverse : (entries.reverse.map (·.1)).Nodup := by rwa [List.map_reverse, List.nodup_reverse]
  rw [get?_ofList, find?_perm entries.reverse_perm hreverse]

theorem contains_insert (t : Table κ ν) (k : κ) (v : ν) (q : κ) :
    (t.insert k v).contains q = (decide (q = k) || t.contains q) := by
  rw [contains, contains, get?_insert]
  by_cases hq : q = k <;> simp [hq]

/-- A list describes a table of the names in it. -/
theorem contains_ofList {entries : List (κ × ν)} {k : κ} :
    (ofList entries).contains k = true ↔ k ∈ entries.map (·.1) := by
  rw [contains, get?_ofList, find?_isSome, List.map_reverse, List.mem_reverse]

/-- **Where no name repeats, the order of the entries does not matter.** -/
theorem ofList_perm {xs ys : List (κ × ν)} (h : xs.Perm ys) (hxs : (xs.map (·.1)).Nodup) : ofList xs = ofList ys := by
  have hys : (ys.map (·.1)).Nodup := (h.map _).nodup_iff.1 hxs
  apply ext_get?
  intro k
  rw [get?_ofList_of_nodup hxs, get?_ofList_of_nodup hys, find?_perm h hxs]

/-- A table is described by its own entries. -/
theorem ofList_entries (t : Table κ ν) : ofList t.entries = t :=
  ext_get? fun k => get?_ofList_of_nodup t.nodup_keys k

/-- Where no name repeats, a table keeps all entries of a list. -/
theorem entries_ofList_perm {entries : List (κ × ν)} (h : (entries.map (·.1)).Nodup) :
    (ofList entries).entries.Perm entries := by
  have hnodup : (ofList entries).entries.Nodup := List.Nodup.of_map _ (ofList entries).nodup_keys
  rw [List.perm_ext_iff_of_nodup hnodup (List.Nodup.of_map _ h)]
  rintro ⟨k, v⟩
  rw [← find?_eq_some_iff (ofList entries).nodup_keys, ← find?_eq_some_iff h]
  exact Eq.congr_left (get?_ofList_of_nodup h k)

end Table

end Formulary
