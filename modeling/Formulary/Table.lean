import Formulary.Name

/-!
# Tables

A finite map from names to values, kept as the list of its entries in the order of the names. The
order is part of the type, so a table is its contents: two tables that answer every look-up alike
are equal (`Table.ext_get?`). `get?_insert` says what an insertion does to later look-ups.
-/

namespace Formulary

/-- Entries stand in the order of their names, each name once. -/
def Ascending {κ : Type} [Named κ] {ν : Type} (entries : List (κ × ν)) : Prop :=
  entries.Pairwise fun x y => Precedes x.1 y.1

/-- A finite map from names of type `κ` to values. -/
structure Table (κ : Type) [Named κ] (ν : Type) where
  entries : List (κ × ν)
  ascending : Ascending entries

namespace Table
variable {κ : Type} [Named κ] {ν : Type}

def empty : Table κ ν := ⟨[], List.Pairwise.nil⟩

instance : EmptyCollection (Table κ ν) := ⟨empty⟩
instance : Inhabited (Table κ ν) := ⟨empty⟩

instance [DecidableEq κ] [DecidableEq ν] : DecidableEq (Table κ ν) := fun t u =>
  decidable_of_iff (t.entries = u.entries) ⟨fun h => by cases t; cases u; cases h; rfl, congrArg _⟩

instance [BEq κ] [BEq ν] : BEq (Table κ ν) := ⟨fun t u => t.entries == u.entries⟩

def keys (t : Table κ ν) : List κ := t.entries.map (·.1)

/-- The names of a table stand in their order. -/
theorem keys_pairwise (t : Table κ ν) : t.keys.Pairwise Precedes :=
  List.pairwise_map.2 t.ascending

/-- The values of a table, in the order of their names. -/
def values (t : Table κ ν) : List ν := t.entries.map (·.2)

def size (t : Table κ ν) : Nat := t.entries.length

variable [DecidableEq κ]

/-- The value an entry list gives a name. -/
def find? (k : κ) : List (κ × ν) → Option ν
  | [] => none
  | (k', v) :: rest => if k = k' then some v else find? k rest

/-- The value of a name, if the table holds it. -/
def get? (t : Table κ ν) (k : κ) : Option ν := find? k t.entries

def contains (t : Table κ ν) (k : κ) : Bool := (t.get? k).isSome

/-- An entry list with `k` mapped to `v`, in place. -/
def put (k : κ) (v : ν) : List (κ × ν) → List (κ × ν)
  | [] => [(k, v)]
  | (k', v') :: rest =>
    if k = k' then (k, v) :: rest
    else if Precedes k k' then (k, v) :: (k', v') :: rest
    else (k', v') :: put k v rest

theorem mem_put {k : κ} {v : ν} {x : κ × ν} : ∀ {entries : List (κ × ν)}, x ∈ put k v entries →
    x = (k, v) ∨ x ∈ entries
  | [], h => by simpa [put] using h
  | (k', v') :: rest, h => by
    unfold put at h
    split at h
    · exact (List.mem_cons.1 h).imp_right (List.mem_cons_of_mem _)
    · split at h
      · exact List.mem_cons.1 h
      · rcases List.mem_cons.1 h with h | h
        · exact .inr (h ▸ List.mem_cons_self)
        · exact (mem_put h).imp_right (List.mem_cons_of_mem _)

theorem ascending_put (k : κ) (v : ν) : ∀ {entries : List (κ × ν)}, Ascending entries →
    Ascending (put k v entries)
  | [], _ => by simp [put, Ascending]
  | (k', v') :: rest, h => by
    obtain ⟨hhead, hrest⟩ := List.pairwise_cons.1 h
    unfold put
    split
    · next hk => subst hk; exact List.pairwise_cons.2 ⟨hhead, hrest⟩
    · next hk =>
      split
      · next hlt =>
        refine List.pairwise_cons.2 ⟨fun x hx => ?_, h⟩
        rcases List.mem_cons.1 hx with rfl | hx
        · exact hlt
        · exact hlt.trans (hhead x hx)
      · next hlt =>
        have hgt : Precedes k' k := ((Precedes.trichotomy k k').resolve_left hlt).resolve_left hk
        refine List.pairwise_cons.2 ⟨fun x hx => ?_, ascending_put k v hrest⟩
        rcases mem_put hx with rfl | hx
        · exact hgt
        · exact hhead x hx

/-- The table with `k` mapped to `v`, whatever `k` was mapped to before. -/
def insert (t : Table κ ν) (k : κ) (v : ν) : Table κ ν :=
  ⟨put k v t.entries, ascending_put k v t.ascending⟩

/-- The table that lists of entries describe: of entries for one name the last counts. -/
def ofList (entries : List (κ × ν)) : Table κ ν :=
  entries.foldl (fun t x => t.insert x.1 x.2) empty

/-! ## Look-ups -/

theorem find?_put (k : κ) (v : ν) (q : κ) : ∀ {entries : List (κ × ν)}, Ascending entries →
    find? q (put k v entries) = if q = k then some v else find? q entries
  | [], _ => by simp [put, find?]
  | (k', v') :: rest, h => by
    obtain ⟨hhead, hrest⟩ := List.pairwise_cons.1 h
    unfold put
    split
    · next hk => subst hk; simp only [find?]; split <;> rfl
    · split
      · simp [find?]
      · next hk _ =>
        simp only [find?, find?_put k v q hrest]
        split
        · next hq => subst hq; rw [if_neg (Ne.symm hk)]
        · rfl

/-- After an insertion the inserted name has the new value and every other name the old one. -/
theorem get?_insert (t : Table κ ν) (k : κ) (v : ν) (q : κ) :
    (t.insert k v).get? q = if q = k then some v else t.get? q :=
  find?_put k v q t.ascending

omit [Named κ] in
theorem find?_isSome (k : κ) : ∀ entries : List (κ × ν), (find? k entries).isSome = true ↔ k ∈ entries.map (·.1)
  | [] => by simp [find?]
  | (k', v) :: rest => by
    unfold find?
    split
    · next h => simp [h]
    · next h => simp [find?_isSome k rest, h]

/-- The names of a table are those that it has a value for. -/
theorem mem_keys {t : Table κ ν} {k : κ} : k ∈ t.keys ↔ (t.get? k).isSome = true :=
  (find?_isSome k t.entries).symm

/-- Under the name of an entry stands its value. -/
theorem find?_of_mem {x : κ × ν} : ∀ {entries : List (κ × ν)}, Ascending entries → x ∈ entries →
    find? x.1 entries = some x.2
  | [], _, hmem => absurd hmem List.not_mem_nil
  | (k, v) :: rest, h, hmem => by
    obtain ⟨hhead, hrest⟩ := List.pairwise_cons.1 h
    rcases List.mem_cons.1 hmem with rfl | hmem
    · simp [find?]
    · rw [find?, if_neg (hhead x hmem).ne.symm]
      exact find?_of_mem hrest hmem

/-- The values of a table are found under its names, one after the other. -/
theorem values_eq_filterMap (t : Table κ ν) : t.values = t.keys.filterMap t.get? := by
  have hfound : ∀ x ∈ t.entries, t.get? x.1 = some x.2 := fun x hx => find?_of_mem t.ascending hx
  rw [values, keys, List.filterMap_map]
  generalize t.entries = entries at hfound
  induction entries with
  | nil => rfl
  | cons x entries ih =>
    have hrest := ih fun y hy => hfound y (List.mem_cons_of_mem x hy)
    simp [hfound x List.mem_cons_self, hrest]

theorem find?_eq_none_of_precedes {k : κ} : ∀ {entries : List (κ × ν)},
    (∀ x ∈ entries, Precedes k x.1) → find? k entries = none
  | [], _ => rfl
  | (k', v') :: rest, h => by
    unfold find?
    rw [if_neg (h _ List.mem_cons_self).ne]
    exact find?_eq_none_of_precedes fun x hx => h x (List.mem_cons_of_mem _ hx)

theorem entries_ext : ∀ {xs ys : List (κ × ν)}, Ascending xs → Ascending ys →
    (∀ k, find? k xs = find? k ys) → xs = ys
  | [], [], _, _, _ => rfl
  | [], (k, v) :: ys, _, _, h => by have := h k; simp [find?] at this
  | (k, v) :: xs, [], _, _, h => by have := h k; simp [find?] at this
  | (k, v) :: xs, (l, w) :: ys, hx, hy, h => by
    obtain ⟨hxh, hxr⟩ := List.pairwise_cons.1 hx
    obtain ⟨hyh, hyr⟩ := List.pairwise_cons.1 hy
    have hkl : k = l := by
      rcases Precedes.trichotomy k l with hlt | heq | hgt
      · have hk := h k
        have : find? k ((l, w) :: ys) = none := find?_eq_none_of_precedes fun x hx => by
          rcases List.mem_cons.1 hx with rfl | hx
          · exact hlt
          · exact hlt.trans (hyh x hx)
        rw [this] at hk
        simp [find?] at hk
      · exact heq
      · have hl := h l
        have : find? l ((k, v) :: xs) = none := find?_eq_none_of_precedes fun x hx => by
          rcases List.mem_cons.1 hx with rfl | hx
          · exact hgt
          · exact hgt.trans (hxh x hx)
        rw [this] at hl
        simp [find?] at hl
    subst hkl
    have hv : v = w := by have := h k; simpa [find?] using this
    subst hv
    refine congrArg _ (entries_ext hxr hyr fun q => ?_)
    by_cases hq : q = k
    · subst hq
      rw [find?_eq_none_of_precedes hxh, find?_eq_none_of_precedes hyh]
    · have := h q
      simpa [find?, hq] using this

/-- A table is what its look-ups answer. -/
theorem ext_get? {t u : Table κ ν} (h : ∀ k, t.get? k = u.get? k) : t = u := by
  obtain ⟨xs, hx⟩ := t
  obtain ⟨ys, hy⟩ := u
  have : xs = ys := entries_ext hx hy h
  subst this
  rfl

end Table

end Formulary
