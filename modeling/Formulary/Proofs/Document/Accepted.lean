import Formulary.Proofs.Document.Library
import Formulary.Proofs.Json.Reading

/-!
# What is read can be written

A list that is left out of a document is written as an empty one. So what is written can be nested more deeply than what
was read, but only by one level, and all literals that are read are finite (`Library.readFormulas?_kept`).
-/

namespace Formulary

open Json (nesting nestingItems nestingMembers Sound InRange)

/-! ## Parts of values -/

theorem Record.ofMembers?_sound {names : List String} {d : Nat} {members : List (String × Json)} {r : Record}
    (hm : ∀ m ∈ members, Sound d m.2) (h : Record.ofMembers? names members = some r) :
    ∀ m ∈ r.members, Sound d m.2 := by
  unfold Record.ofMembers? at h
  split at h
  · obtain rfl := Option.some.inj h
    exact hm
  · exact absurd h (by simp)

theorem Record.ofItems?_sound {names : List String} {d : Nat} {items : List Json} {r : Record}
    (hi : ∀ item ∈ items, Sound d item) (h : Record.ofItems? names items = some r) :
    ∀ m ∈ r.members, Sound d m.2 := by
  unfold Record.ofItems? at h
  split at h
  · obtain rfl := Option.some.inj h
    intro m hm
    exact hi m.2 (List.of_mem_zip hm).2
  · exact absurd h (by simp)

/-- A value that spells a record is nested at least once, and the parts of the record one level less. -/
theorem Record.ofJson?_sound {names : List String} {d : Nat} {j : Json} {r : Record} (hj : Sound d j)
    (h : Record.ofJson? names j = some r) : ∃ d', d = d' + 1 ∧ ∀ m ∈ r.members, Sound d' m.2 := by
  unfold Record.ofJson? at h
  split at h
  · obtain ⟨d', rfl, hm⟩ := hj.of_object
    exact ⟨d', rfl, Record.ofMembers?_sound hm h⟩
  · obtain ⟨d', rfl, hi⟩ := hj.of_array
    exact ⟨d', rfl, Record.ofItems?_sound hi h⟩
  · exact absurd h (by simp)

section
variable {α : Type} {d : Nat} {r : Record} {name : String}

theorem Record.get?_sound {j : Json} (hr : ∀ m ∈ r.members, Sound d m.2) (h : r.get? name = some j) :
    Sound d j := by
  obtain ⟨m, hm, rfl⟩ := Option.map_eq_some_iff.1 h
  exact hr m (List.mem_of_find?_eq_some hm)

theorem Record.required_sound {read : Json → Option α} {a : α} (hr : ∀ m ∈ r.members, Sound d m.2)
    (h : r.required name read = some a) : ∃ j, Sound d j ∧ read j = some a := by
  obtain ⟨j, hj, ha⟩ := Option.bind_eq_some_iff.1 h
  exact ⟨j, Record.get?_sound hr hj, ha⟩

theorem Record.withDefault_sound {read : Json → Option α} {default a : α} (hr : ∀ m ∈ r.members, Sound d m.2)
    (h : r.withDefault name default read = some a) : a = default ∨ ∃ j, Sound d j ∧ read j = some a := by
  unfold Record.withDefault at h
  split at h
  · next j hj => exact .inr ⟨j, Record.get?_sound hr hj, h⟩
  · exact .inl (Option.some.inj h).symm

theorem Record.operand_sound {read : Json → Option (Option α)} {a : Option α} (hr : ∀ m ∈ r.members, Sound d m.2)
    (h : r.operand name read = some a) : a = none ∨ ∃ j, Sound d j ∧ read j = some a := by
  unfold Record.operand at h
  split at h
  · next j hj => exact .inr ⟨j, Record.get?_sound hr hj, h⟩
  · split at h
    · exact absurd h (by simp)
    · exact .inl (Option.some.inj h).symm

/-- The items of a list that is read are nested one level less than the list. -/
theorem Json.toList?_sound {read : Json → Option α} {j : Json} {as : List α} (hj : Sound d j)
    (h : Json.toList? read j = some as) : ∃ d', d = d' + 1 ∧ ∀ a ∈ as, ∃ j, Sound d' j ∧ read j = some a := by
  unfold Json.toList? at h
  split at h
  · obtain ⟨d', rfl, hitems⟩ := hj.of_array
    refine ⟨d', rfl, ?_⟩
    intro a ha
    obtain ⟨item, hitem, hread⟩ := Json.mem_of_mapM_some h a ha
    exact ⟨item, hitems item hitem, hread⟩
  · exact absurd h (by simp)

end

/-! ## Derived stats -/

theorem Modifier.nesting_toJson (m : Modifier) : nesting m.toJson = 1 := by
  simp [Modifier.toJson, nesting, nestingMembers, Document.toJson]

theorem DerivedStat.nesting_toJson_le {place : Place} {d : Nat} {j : Json} {s : DerivedStat} (hj : Sound d j)
    (h : DerivedStat.read? place j = some s) : nesting s.toJson ≤ d + 1 := by
  simp only [DerivedStat.read?, Option.bind_eq_bind, Option.bind_eq_some_iff] at h
  obtain ⟨r, hr, id, -, modifiers, hmodifiers, heq⟩ := h
  obtain rfl := Option.some.inj heq
  obtain ⟨d, rfl, hparts⟩ := Record.ofJson?_sound hj hr
  have hlist : nestingItems (modifiers.map Modifier.toJson) ≤ d := by
    rcases Record.withDefault_sound hparts hmodifiers with rfl | ⟨j, hj, hread⟩
    · exact Nat.zero_le d
    · obtain ⟨d, rfl, -⟩ := Json.toList?_sound hj hread
      rw [Json.nestingItems_le_iff, List.forall_mem_map]
      intro m _
      rw [m.nesting_toJson]
      exact Nat.le_add_left 1 d
  simp only [DerivedStat.toJson, Document.toJson, nesting, nestingMembers] at hlist ⊢
  omega

/-! ## Expressions -/

namespace Expr

theorem slotsJson_eq_map (xs : List (Option Expr)) : slotsJson xs = xs.map slotJson := by
  induction xs with
  | nil => rfl
  | cons x xs ih => rw [slotsJson, ih, List.map_cons]

theorem slotsAreFinite_eq_all (xs : List (Option Expr)) : slotsAreFinite xs = xs.all slotIsFinite := by
  induction xs with
  | nil => rfl
  | cons x xs ih =>
    rw [List.all_cons, ← ih]
    exact List.all_append

/-- Whether an expression that was read from a value nested `d` deep can be written. -/
def Kept (d : Nat) (e : Expr) : Prop :=
  e.isFinite = true ∧ nesting (toJson e) ≤ d + 1

def KeptSlot (d : Nat) (x : Option Expr) : Prop :=
  slotIsFinite x = true ∧ nesting (slotJson x) ≤ d + 1

def KeptSlots (d : Nat) (xs : List (Option Expr)) : Prop :=
  slotsAreFinite xs = true ∧ nestingItems (slotsJson xs) ≤ d

theorem toFloat?_isFinite {d : Nat} {j : Json} {x : Float} (hj : Sound d j) (h : j.toFloat? = some x) :
    x.isFinite = true := by
  obtain ⟨hrange, -⟩ := hj
  unfold Json.toFloat? at h
  split at h
  · obtain rfl := Option.some.inj h
    simpa only [InRange] using hrange
  · obtain rfl := Option.some.inj h
    exact isFinite_ofInt (by simpa only [InRange] using hrange)
  · exact absurd h (by simp)

theorem keptSlot_none (d : Nat) : KeptSlot d none :=
  ⟨rfl, Nat.zero_le _⟩

theorem nodeJson_list_kept {d : Nat} {xs : List (Option Expr)} (h : KeptSlots d xs) (kind : Kind) (name : String) :
    (slotsConstants xs).all Float.isFinite = true ∧
      nesting (nodeJson kind [(name, .array (slotsJson xs))]) ≤ d + 1 + 1 := by
  obtain ⟨hfinite, hnesting⟩ := h
  refine ⟨hfinite, ?_⟩
  simp only [nodeJson, nesting, nestingMembers]
  omega

theorem nodeJson_pair_kept {d : Nat} {a b : Option Expr} (ha : KeptSlot d a) (hb : KeptSlot d b) (kind : Kind)
    (name name' : String) :
    (slotConstants a ++ slotConstants b).all Float.isFinite = true ∧
      nesting (nodeJson kind [(name, slotJson a), (name', slotJson b)]) ≤ d + 1 + 1 := by
  obtain ⟨hfa, hna⟩ := ha
  obtain ⟨hfb, hnb⟩ := hb
  constructor
  · rw [List.all_append]
    exact Bool.and_eq_true_iff.2 ⟨hfa, hfb⟩
  · simp only [nodeJson, nesting, nestingMembers]
    omega

section
variable {read : Json → Option Expr} (hread : ∀ {d j e}, Sound d j → read j = some e → Kept d e)
include hread

theorem toOption?_kept {d : Nat} {j : Json} {x : Option Expr} (hj : Sound d j)
    (h : Json.toOption? read j = some x) : KeptSlot d x := by
  unfold Json.toOption? at h
  split at h
  · obtain rfl := Option.some.inj h
    exact keptSlot_none d
  · obtain ⟨e, he, rfl⟩ := Option.map_eq_some_iff.1 h
    exact hread hj he

theorem operand_kept {d : Nat} {r : Record} {name : String} {x : Option Expr}
    (hr : ∀ m ∈ r.members, Sound d m.2) (h : r.operand name (Json.toOption? read) = some x) : KeptSlot d x := by
  rcases Record.operand_sound hr h with rfl | ⟨j, hj, hx⟩
  · exact keptSlot_none d
  · exact toOption?_kept hread hj hx

theorem list_kept {d : Nat} {r : Record} {name : String} {xs : List (Option Expr)}
    (hr : ∀ m ∈ r.members, Sound d m.2)
    (h : r.withDefault name [] (Json.toList? (Json.toOption? read)) = some xs) : KeptSlots d xs := by
  rcases Record.withDefault_sound hr h with rfl | ⟨j, hj, hxs⟩
  · exact ⟨rfl, Nat.zero_le d⟩
  obtain ⟨d, rfl, hslots⟩ := Json.toList?_sound hj hxs
  have hkept : ∀ x ∈ xs, KeptSlot d x := by
    intro x hx
    obtain ⟨j, hj, hread'⟩ := hslots x hx
    exact toOption?_kept hread hj hread'
  rw [KeptSlots, slotsAreFinite_eq_all, slotsJson_eq_map, Json.nestingItems_le_iff, List.all_eq_true,
    List.forall_mem_map]
  constructor
  · intro x hx
    exact (hkept x hx).1
  · intro x hx
    exact (hkept x hx).2

/-- A node whose parts can be written can be written. -/
theorem ofRecord?_kept {d : Nat} {r : Record} {kind : Kind} {e : Expr} (hr : ∀ m ∈ r.members, Sound d m.2)
    (h : ofRecord? read r kind = some e) : Kept (d + 1) e := by
  cases kind with
  | constant =>
    obtain ⟨x, hx, rfl⟩ := Option.map_eq_some_iff.1 h
    obtain ⟨j, hj, hread'⟩ := Record.required_sound hr hx
    have hfinite := toFloat?_isFinite hj hread'
    refine ⟨by simp [isFinite, constants, hfinite], ?_⟩
    simp [toJson, nodeJson, nesting, nestingMembers, Json.ofFloat, hfinite]
  | euler =>
    obtain rfl := Option.some.inj h
    exact ⟨rfl, by simp [toJson, nodeJson, nesting, nestingMembers]⟩
  | mastery =>
    obtain rfl := Option.some.inj h
    exact ⟨rfl, by simp [toJson, nodeJson, nesting, nestingMembers]⟩
  | coreStat =>
    obtain ⟨stat, -, rfl⟩ := Option.map_eq_some_iff.1 h
    exact ⟨rfl, by simp [toJson, nodeJson, nesting, nestingMembers, Document.toJson]⟩
  | derivedStat =>
    obtain ⟨stat, hstat, rfl⟩ := Option.map_eq_some_iff.1 h
    obtain ⟨j, hj, hread'⟩ := Record.required_sound hr hstat
    have hnesting := DerivedStat.nesting_toJson_le hj hread'
    refine ⟨rfl, ?_⟩
    simp only [toJson, nodeJson, nesting, nestingMembers]
    omega
  | chain op =>
    obtain ⟨xs, hxs, rfl⟩ := Option.map_eq_some_iff.1 h
    exact nodeJson_list_kept (list_kept hread hr hxs) ..
  | extremum side =>
    obtain ⟨xs, hxs, rfl⟩ := Option.map_eq_some_iff.1 h
    exact nodeJson_list_kept (list_kept hread hr hxs) ..
  | exponential =>
    obtain ⟨a, ha, rfl⟩ := Option.map_eq_some_iff.1 h
    obtain ⟨hfinite, hnesting⟩ := operand_kept hread hr ha
    refine ⟨hfinite, ?_⟩
    simp only [toJson, nodeJson, nesting, nestingMembers]
    omega
  | power =>
    simp only [ofRecord?, Option.bind_eq_bind, Option.bind_eq_some_iff] at h
    obtain ⟨a, ha, b, hb, heq⟩ := h
    obtain rfl := Option.some.inj heq
    exact nodeJson_pair_kept (operand_kept hread hr ha) (operand_kept hread hr hb) ..
  | logarithmic =>
    simp only [ofRecord?, Option.bind_eq_bind, Option.bind_eq_some_iff] at h
    obtain ⟨a, ha, b, hb, heq⟩ := h
    obtain rfl := Option.some.inj heq
    exact nodeJson_pair_kept (operand_kept hread hr ha) (operand_kept hread hr hb) ..
  | clamp =>
    simp only [ofRecord?, Option.bind_eq_bind, Option.bind_eq_some_iff] at h
    obtain ⟨a, ha, b, hb, c, hc, heq⟩ := h
    obtain rfl := Option.some.inj heq
    obtain ⟨hfa, hna⟩ := operand_kept hread hr ha
    obtain ⟨hfb, hnb⟩ := operand_kept hread hr hb
    obtain ⟨hfc, hnc⟩ := operand_kept hread hr hc
    constructor
    · rw [isFinite, constants, List.all_append, List.all_append]
      exact Bool.and_eq_true_iff.2 ⟨hfa, Bool.and_eq_true_iff.2 ⟨hfb, hfc⟩⟩
    · simp only [toJson, nodeJson, nesting, nestingMembers]
      omega

theorem readNode_kept {place : Place} {d : Nat} {j : Json} {e : Expr} (hj : Sound d j)
    (h : readNode place read j = some e) : Kept d e := by
  unfold readNode at h
  split at h
  · next members =>
    obtain ⟨d, rfl, hmembers⟩ := hj.of_object
    split at h
    · simp only [Option.bind_eq_bind, Option.bind_eq_some_iff] at h
      obtain ⟨kind, -, r, hr, he⟩ := h
      have hparts := Record.ofMembers?_sound (fun m hm => hmembers m (List.mem_filter.1 hm).1) hr
      exact ofRecord?_kept hread hparts he
    · exact absurd h (by simp)
  · next tag items =>
    obtain ⟨d, rfl, hitems⟩ := hj.of_array
    simp only [Option.bind_eq_bind, Option.bind_eq_some_iff] at h
    obtain ⟨kind, -, r, hr, he⟩ := h
    have hparts := Record.ofItems?_sound (fun item hitem => hitems item (List.mem_cons_of_mem _ hitem)) hr
    exact ofRecord?_kept hread hparts he
  · exact absurd h (by simp)

end

theorem readWithin_kept : ∀ {depth d : Nat} {j : Json} {e : Expr}, Sound d j → readWithin depth j = some e →
    Kept d e
  | 0, d, j, e, _, h => by simp [readWithin] at h
  | depth + 1, d, j, e, hj, h => readNode_kept readWithin_kept hj h

/-- **An expression that is read can be written**, at most one level deeper, and its literals are finite. -/
theorem read?_kept {d : Nat} {j : Json} {e : Expr} (hj : Sound d j) (h : read? j = some e) : Kept d e := by
  unfold read? at h
  split at h
  · exact readNode_kept readWithin_kept hj h
  · exact absurd h (by simp)

end Expr

/-! ## Formulas and libraries -/

theorem toExpressions?_kept {d : Nat} {r : Record} {es : List Expr} (hr : ∀ m ∈ r.members, Sound d m.2)
    (h : r.withDefault "expressions" [] Document.ofJson? = some es) :
    (∀ e ∈ es, e.isFinite = true) ∧ nestingItems (es.map Expr.toJson) ≤ d := by
  rcases Record.withDefault_sound hr h with rfl | ⟨j, hj, hread⟩
  · exact ⟨by simp, Nat.zero_le d⟩
  obtain ⟨d, rfl, hes⟩ := Json.toList?_sound hj hread
  have hkept : ∀ e ∈ es, Expr.Kept d e := by
    intro e he
    obtain ⟨j, hj, hread⟩ := hes e he
    exact Expr.read?_kept hj hread
  rw [Json.nestingItems_le_iff, List.forall_mem_map]
  constructor
  · intro e he
    exact (hkept e he).1
  · intro e he
    exact (hkept e he).2

theorem Formula.read?_kept {d : Nat} {j : Json} {f : Formula} (hj : Sound d j) (h : Formula.read? j = some f) :
    (∀ e ∈ f.expressions, e.isFinite = true) ∧ nesting f.toJson ≤ d + 1 := by
  simp only [Formula.read?, Option.bind_eq_bind, Option.bind_eq_some_iff] at h
  obtain ⟨r, hr, name, -, es, hes, heq⟩ := h
  obtain rfl := Option.some.inj heq
  obtain ⟨d, rfl, hparts⟩ := Record.ofJson?_sound hj hr
  obtain ⟨hfinite, hnesting⟩ := toExpressions?_kept hparts hes
  refine ⟨hfinite, ?_⟩
  have hexpressions : (Document.toJson es : Json) = .array (es.map Expr.toJson) := rfl
  simp only [Formula.toJson, hexpressions, nesting, nestingMembers]
  omega

namespace Library

/-- **The formulas that are read can be written**, at most one level deeper. -/
theorem readFormulas?_kept {d : Nat} {j : Json} {fs : List Formula} (hj : Sound d j)
    (h : readFormulas? j = some fs) :
    (∀ f ∈ fs, ∀ e ∈ f.expressions, e.isFinite = true) ∧ nestingItems (fs.map Formula.toJson) + 1 ≤ d := by
  simp only [readFormulas?, Option.bind_eq_bind, Option.bind_eq_some_iff] at h
  obtain ⟨r, hr, hfs⟩ := h
  obtain ⟨d, rfl, hparts⟩ := Record.ofJson?_sound hj hr
  rcases Record.withDefault_sound hparts hfs with rfl | ⟨j, hj, hread⟩
  · exact ⟨by simp, Nat.le_add_left 1 d⟩
  obtain ⟨d, rfl, hfs⟩ := Json.toList?_sound hj hread
  have hkept : ∀ f ∈ fs, (∀ e ∈ f.expressions, e.isFinite = true) ∧ nesting f.toJson ≤ d + 1 := by
    intro f hf
    obtain ⟨j, hj, hread⟩ := hfs f hf
    exact Formula.read?_kept hj hread
  have hnesting : nestingItems (fs.map Formula.toJson) ≤ d + 1 :=
    Json.nestingItems_le_iff.2 (List.forall_mem_map.2 fun f hf => (hkept f hf).2)
  exact ⟨fun f hf => (hkept f hf).1, Nat.succ_le_succ hnesting⟩

end Library

end Formulary
