import Formulary.Document.Character
import Formulary.Formula
import Formulary.Proofs.Document.Senses
import Formulary.Proofs.Json.Order

/-!
# Readers that do not mind the order of members

A value is read as its canonical form is (`IgnoresOrder`), as long as no object gives a name twice. A reader of a part
is carried over to a reader of a record, a list, a table or a tree of nodes.
-/

namespace Formulary

open Json (Distinct Shuffled given)

/-- Whether a reader reads the canonical form of a value as it reads the value. -/
def IgnoresOrder {α : Type} (read : Json → Option α) : Prop :=
  ∀ ⦃j⦄, Distinct j → read j.canonical = read j

section
variable {α : Type} {read : Json → Option α}

/-- Values that are the same up to order are read alike. -/
theorem IgnoresOrder.of_shuffled (h : IgnoresOrder read) {j j' : Json} (hj : Shuffled j j') : read j' = read j := by
  rw [← h hj.left, ← h hj.right, hj.canonical]

/-! ## Parts that are no records -/

/-- A reader that reads nothing from arrays and objects does not mind an order. -/
theorem ignoresOrder_of_simple (harray : ∀ items, read (.array items) = none)
    (hobject : ∀ members, read (.object members) = none) : IgnoresOrder read := by
  intro j hj
  cases hj with
  | simple h => rw [Json.canonical_of_isSimple h]
  | array h => rw [Json.canonical_array, harray, harray]
  | object hnodup h =>
    obtain ⟨members', heq, -⟩ := Json.exists_canonical_object hnodup
    rw [heq, hobject, hobject]

theorem ignoresOrder_float : IgnoresOrder Json.toFloat? :=
  ignoresOrder_of_simple (fun _ => rfl) fun _ => rfl

theorem ignoresOrder_text : IgnoresOrder Json.toText? :=
  ignoresOrder_of_simple (fun _ => rfl) fun _ => rfl

theorem ignoresOrder_int32 : IgnoresOrder (Document.ofJson? : Json → Option Int32) :=
  ignoresOrder_of_simple (fun _ => rfl) fun _ => rfl

theorem ignoresOrder_uint32 : IgnoresOrder (Document.ofJson? : Json → Option UInt32) :=
  ignoresOrder_of_simple (fun _ => rfl) fun _ => rfl

theorem ignoresOrder_id {k : IdKind} : IgnoresOrder (Document.ofJson? : Json → Option (Id k)) :=
  ignoresOrder_of_simple (fun _ => rfl) fun _ => rfl

theorem ignoresOrder_kind (place : Place) : IgnoresOrder (Kind.read? place) :=
  ignoresOrder_of_simple (fun _ => rfl) fun _ => rfl

theorem Json.canonical_ne_null {j : Json} (h : Distinct j) (hj : j ≠ .null) : j.canonical ≠ .null := by
  cases h with
  | simple h => rwa [Json.canonical_of_isSimple h]
  | array h => simp [Json.canonical_array]
  | object hnodup h =>
    obtain ⟨members', heq, -⟩ := Json.exists_canonical_object hnodup
    simp [heq]

theorem IgnoresOrder.toOption? (h : IgnoresOrder read) : IgnoresOrder (Json.toOption? read) := by
  intro j hj
  by_cases hnull : j = .null
  · rw [hnull]
    rfl
  · rw [Json.toOption?_of_ne_null hnull, Json.toOption?_of_ne_null (Json.canonical_ne_null hj hnull), h hj]

theorem IgnoresOrder.mapM_canonical (h : IgnoresOrder read) {items : List Json} (hitems : ∀ j ∈ items, Distinct j) :
    (items.map Json.canonical).mapM read = items.mapM read := by
  rw [List.mapM_map]
  exact mapM_congr_of_mem fun j hj => h (hitems j hj)

theorem IgnoresOrder.toList? (h : IgnoresOrder read) : IgnoresOrder (Json.toList? read) := by
  intro j hj
  cases hj with
  | simple h => rw [Json.canonical_of_isSimple h]
  | array hitems =>
    rw [Json.canonical_array]
    exact h.mapM_canonical hitems
  | object hnodup _ =>
    obtain ⟨members', heq, -⟩ := Json.exists_canonical_object hnodup
    rw [heq]
    rfl

end

/-! ## Tables -/

theorem exists_mapM_of_perm {α β : Type} {f : α → Option β} {xs xs' : List α} {ys : List β} (h : xs.Perm xs')
    (hys : xs.mapM f = some ys) : ∃ ys', xs'.mapM f = some ys' ∧ ys.Perm ys' := by
  obtain ⟨ys', hys', hperm⟩ := List.perm_comp_forall₂ h.symm (mapM_eq_some_iff.1 hys)
  exact ⟨ys', mapM_eq_some_iff.2 hys', hperm.symm⟩

section
variable {α : Type} [Document α] {k : IdKind}

theorem names_of_members {members : List (String × Json)} {entries : List (Id k × α)}
    (h : members.mapM Document.member? = some entries) : entries.map (·.1.name) = members.map (·.1) := by
  rw [mapM_eq_some_iff] at h
  induction h with
  | nil => rfl
  | cons hm _ ih =>
    obtain ⟨a, -, rfl⟩ := Option.map_eq_some_iff.1 hm
    rw [List.map_cons, List.map_cons, ih]

/-- A table is read from members in any order. -/
theorem ofMembers_of_perm {members members' : List (String × Json)} (hnodup : (members.map (·.1)).Nodup)
    (h : members.Perm members') :
    ((members.mapM Document.member?).map Table.ofList : Option (Table (Id k) α)) =
      (members'.mapM Document.member?).map Table.ofList := by
  -- what is read in one order is read in the other; the two directions are one argument
  have hsome {members members' : List (String × Json)} (hnodup : (members.map (·.1)).Nodup)
      (h : members.Perm members') (t : Table (Id k) α) (ht : (members.mapM Document.member?).map Table.ofList = some t) :
      (members'.mapM Document.member?).map Table.ofList = some t := by
    obtain ⟨entries, hentries, rfl⟩ := Option.map_eq_some_iff.1 ht
    obtain ⟨entries', hentries', hperm⟩ := exists_mapM_of_perm h hentries
    have hnames : (entries.map (·.1)).Nodup := by
      apply List.Nodup.of_map Id.name
      rw [List.map_map]
      exact (names_of_members hentries).symm ▸ hnodup
    rw [hentries', Option.map_some, Table.ofList_perm hperm hnames]
  ext t
  exact ⟨hsome hnodup h t, hsome ((h.map _).nodup_iff.1 hnodup) h.symm t⟩

theorem ignoresOrder_table (h : IgnoresOrder (Document.ofJson? : Json → Option α)) :
    IgnoresOrder (Document.ofJson? : Json → Option (Table (Id k) α)) := by
  intro j hj
  cases hj with
  | simple h => rw [Json.canonical_of_isSimple h]
  | array hitems => rw [Json.canonical_array]; rfl
  | @object members hnodup hmembers =>
    obtain ⟨members', heq, hperm⟩ := Json.exists_canonical_object hnodup
    have hnodup' : (members'.map (·.1)).Nodup := by
      rw [(hperm.map _).nodup_iff, List.map_map]
      exact hnodup
    have hmember : (members.map fun m => (m.1, m.2.canonical)).mapM Document.member? =
        (members.mapM Document.member? : Option (List (Id k × α))) := by
      rw [List.mapM_map]
      apply mapM_congr_of_mem
      intro m hm
      exact congrArg (Option.map _) (h (hmembers m hm))
    rw [heq]
    show (members'.mapM Document.member?).map Table.ofList = (members.mapM Document.member?).map Table.ofList
    rw [ofMembers_of_perm hnodup' hperm, hmember]

end

/-! ## Records -/

/-- Whether a record has the parts of another one in canonical form. -/
structure Record.Reordered (r r' : Record) : Prop where
  positional : r'.positional = r.positional
  get? (name : String) : r'.get? name = (r.get? name).map Json.canonical
  distinct {name : String} {j : Json} : r.get? name = some j → Distinct j

namespace Record

theorem get?_eq_find? (positional : Bool) (members : List (String × Json)) (name : String) :
    get? ⟨positional, members⟩ name = Table.find? name members := by
  induction members with
  | nil => rfl
  | cons m members ih =>
    by_cases h : m.1 = name
    · simp [get?, Table.find?, h]
    · rw [get?_cons_ne positional h, ih, Table.find?, if_neg (Ne.symm h)]

theorem get?_map_canonical (positional : Bool) (members : List (String × Json)) (name : String) :
    get? ⟨positional, members.map fun m => (m.1, m.2.canonical)⟩ name =
      (get? ⟨positional, members⟩ name).map Json.canonical := by
  simp [get?, List.find?_map, Function.comp_def]

theorem distinct_of_get? {positional : Bool} {members : List (String × Json)} (h : ∀ m ∈ members, Distinct m.2)
    {name : String} {j : Json} (hj : get? ⟨positional, members⟩ name = some j) : Distinct j := by
  obtain ⟨m, hm, rfl⟩ := Option.map_eq_some_iff.1 hj
  exact h m (List.mem_of_find?_eq_some hm)

section
variable {α : Type} {f : Record → Option α} (hf : ∀ {r r'}, Reordered r r' → f r' = f r) (names : List String)
include hf

theorem ofMembers?_bind_of_perm {members members' : List (String × Json)} (hnodup : (members.map (·.1)).Nodup)
    (hmembers : ∀ m ∈ members, Distinct m.2)
    (hperm : members'.Perm (members.map fun m => (m.1, m.2.canonical))) :
    (ofMembers? names members').bind f = (ofMembers? names members).bind f := by
  have hnodup' : (members'.map (·.1)).Nodup := by
    rw [(hperm.map _).nodup_iff, List.map_map]
    exact hnodup
  rw [ofMembers?_of_nodup_names names hnodup, ofMembers?_of_nodup_names names hnodup', Option.bind_some, Option.bind_some]
  refine hf ⟨rfl, fun name => ?_, distinct_of_get? hmembers⟩
  rw [get?_eq_find?, Table.find?_perm hperm hnodup', ← get?_eq_find? false, get?_map_canonical]

theorem ofItems?_bind_map_canonical {items : List Json} (hitems : ∀ j ∈ items, Distinct j) :
    (ofItems? names (items.map Json.canonical)).bind f = (ofItems? names items).bind f := by
  rw [ofItems?, ofItems?, List.length_map]
  split
  · rw [Option.bind_some, Option.bind_some]
    refine hf ⟨rfl, fun name => ?_, distinct_of_get? fun m hm => hitems m.2 (List.of_mem_zip hm).2⟩
    rw [List.zip_map_right]
    exact get?_map_canonical true _ name
  · rfl

end

/-- **A reader of records does not mind the order of members** if it makes the same of the same parts. -/
theorem ignoresOrder_bind {α : Type} (names : List String) {f : Record → Option α}
    (hf : ∀ {r r'}, Reordered r r' → f r' = f r) : IgnoresOrder fun j => (ofJson? names j).bind f := by
  intro j hj
  cases hj with
  | simple h => rw [Json.canonical_of_isSimple h]
  | array hitems =>
    rw [Json.canonical_array]
    exact ofItems?_bind_map_canonical hf names hitems
  | object hnodup hmembers =>
    obtain ⟨members', heq, hperm⟩ := Json.exists_canonical_object hnodup
    rw [heq]
    exact ofMembers?_bind_of_perm hf names hnodup hmembers hperm

namespace Reordered
variable {α : Type} {r r' : Record} (h : Reordered r r') (name : String)
include h

theorem required {read : Json → Option α} (hread : IgnoresOrder read) :
    r'.required name read = r.required name read := by
  rw [Record.required, Record.required, h.get?]
  cases hj : r.get? name with
  | none => rfl
  | some j => exact hread (h.distinct hj)

theorem withDefault (default : α) {read : Json → Option α} (hread : IgnoresOrder read) :
    r'.withDefault name default read = r.withDefault name default read := by
  rw [Record.withDefault, Record.withDefault, h.get?]
  cases hj : r.get? name with
  | none => rfl
  | some j => exact hread (h.distinct hj)

theorem operand {read : Json → Option (Option α)} (hread : IgnoresOrder read) :
    r'.operand name read = r.operand name read := by
  rw [Record.operand, Record.operand, h.get?, h.positional]
  cases hj : r.get? name with
  | none => rfl
  | some j => exact hread (h.distinct hj)

end Reordered

end Record

theorem CharacterData.ignoresOrder : IgnoresOrder CharacterData.read? := by
  refine Record.ignoresOrder_bind _ fun h => ?_
  simp only [h.required _ ignoresOrder_text, h.withDefault _ _ (ignoresOrder_table ignoresOrder_int32)]

theorem Character.ignoresOrder : IgnoresOrder Character.read? := by
  refine Record.ignoresOrder_bind _ fun h => ?_
  simp only [h.required _ CharacterData.ignoresOrder, h.withDefault _ _ (ignoresOrder_table ignoresOrder_uint32)]

theorem Ability.ignoresOrder : IgnoresOrder Ability.read? := by
  refine Record.ignoresOrder_bind _ fun h => ?_
  have hthresholds : IgnoresOrder (Document.ofJson? : Json → Option (List Int32)) := ignoresOrder_int32.toList?
  have hstat : IgnoresOrder (Document.ofJson? : Json → Option (Option DerivedStatId)) := ignoresOrder_id.toOption?
  simp only [h.required _ ignoresOrder_id, h.withDefault _ _ hthresholds, h.withDefault _ _ hstat,
    h.withDefault _ _ ignoresOrder_int32, h.withDefault _ _ ignoresOrder_float]

/-! ## Derived stats -/

theorem Place.isUnit_canonical (place : Place) {j : Json} (h : Distinct j) :
    place.isUnit j.canonical = place.isUnit j := by
  cases h with
  | simple h => rw [Json.canonical_of_isSimple h]
  | array hitems =>
    rw [Json.canonical_array]
    cases place <;> rfl
  | @object members hnodup hmembers =>
    obtain ⟨members', heq, hperm⟩ := Json.exists_canonical_object hnodup
    rw [heq]
    cases members with
    | nil => rw [List.perm_nil.1 hperm]
    | cons m members =>
      cases members' with
      | nil => exact absurd hperm.length_eq (by simp)
      | cons => cases place <;> rfl

theorem Operator.ignoresOrder (place : Place) : IgnoresOrder (Operator.read? place) := by
  intro j hj
  cases hj with
  | simple h => rw [Json.canonical_of_isSimple h]
  | array hitems => rw [Json.canonical_array]; rfl
  | @object members hnodup hmembers =>
    obtain ⟨members', heq, hperm⟩ := Json.exists_canonical_object hnodup
    rw [heq]
    match members with
    | [] => rw [List.perm_nil.1 hperm]
    | [m] =>
      rw [List.perm_singleton.1 hperm]
      simp only [Operator.read?, place.isUnit_canonical (hmembers m (List.mem_singleton_self m))]
    | m₁ :: m₂ :: members =>
      match members', hperm.length_eq with
      | n₁ :: n₂ :: members', _ => rfl

theorem Modifier.ignoresOrder (place : Place) : IgnoresOrder (Modifier.read? place) := by
  refine Record.ignoresOrder_bind _ fun h => ?_
  simp only [h.required _ ignoresOrder_id, h.required _ ignoresOrder_int32, h.required _ (Operator.ignoresOrder place)]

theorem DerivedStat.ignoresOrder (place : Place) : IgnoresOrder (DerivedStat.read? place) := by
  refine Record.ignoresOrder_bind _ fun h => ?_
  simp only [h.required _ ignoresOrder_id, h.withDefault _ _ (Modifier.ignoresOrder place).toList?]

/-! ## Evaluations -/

theorem Evaluation.ignoresOrder_step : IgnoresOrder Evaluation.readStep? := by
  intro j hj
  cases hj with
  | simple h => rw [Json.canonical_of_isSimple h]
  | @array items hitems =>
    rw [Json.canonical_array]
    match items with
    | [] => rfl
    | [j] => rfl
    | [j, k] =>
      have hj : Distinct j := hitems j (by simp)
      have hk : Distinct k := hitems k (by simp)
      simp only [List.map_cons, List.map_nil, Evaluation.readStep?, ignoresOrder_text hj, ignoresOrder_float hk]
    | _ :: _ :: _ :: _ => rfl
  | object hnodup hmembers =>
    obtain ⟨members', heq, -⟩ := Json.exists_canonical_object hnodup
    rw [heq]
    rfl

theorem Evaluation.ignoresOrder : IgnoresOrder Evaluation.read? := by
  refine Record.ignoresOrder_bind _ fun h => ?_
  simp only [h.required _ ignoresOrder_text, h.required _ ignoresOrder_float,
    h.required _ Evaluation.ignoresOrder_step.toList?]

/-! ## Expressions -/

namespace Expr
variable {read : Json → Option Expr}

theorem ofRecord?_of_reordered (hread : IgnoresOrder read) (kind : Kind) {r r' : Record} (h : r.Reordered r') :
    ofRecord? read r' kind = ofRecord? read r kind := by
  cases kind <;> simp only [ofRecord?, h.required _ ignoresOrder_float, h.required _ ignoresOrder_id,
    h.required _ (DerivedStat.ignoresOrder .inner), h.operand _ hread.toOption?,
    h.withDefault _ _ hread.toOption?.toList?]

theorem kindIn?_of_perm (place : Place) {members members' : List (String × Json)}
    (hmembers : ∀ m ∈ members, Distinct m.2)
    (hperm : members'.Perm (members.map fun m => (m.1, m.2.canonical))) :
    Json.kindIn? place members' = Json.kindIn? place members := by
  have htags : (given members' "kind").Perm ((given members "kind").map Json.canonical) := by
    have h := Json.given_perm hperm "kind"
    rw [given, given, List.filter_map, List.map_map] at h
    rw [given, given, List.map_map]
    exact h
  have hdistinct : ∀ j ∈ given members "kind", Distinct j := by
    rw [given, List.forall_mem_map]
    exact fun m hm => hmembers m (List.mem_filter.1 hm).1
  unfold Json.kindIn?
  generalize given members "kind" = tags at htags hdistinct
  rcases tags with _ | ⟨tag, _ | ⟨tag', tags⟩⟩
  · rw [List.perm_nil.1 htags]
  · rw [List.perm_singleton.1 htags]
    exact ignoresOrder_kind place (hdistinct tag (List.mem_singleton_self tag))
  · -- a kind that is given twice is none, whichever comes first
    generalize given members' "kind" = tags' at htags
    have hlength := htags.length_eq
    rcases tags' with _ | ⟨_, _ | ⟨_, _⟩⟩
    · simp at hlength
    · simp at hlength
    · rfl

/-- A node does not mind the order of members if the nodes below it do not. -/
theorem ignoresOrder_readNode (place : Place) (hread : IgnoresOrder read) : IgnoresOrder (readNode place read) := by
  intro j hj
  cases hj with
  | simple h => rw [Json.canonical_of_isSimple h]
  | @array items hitems =>
    rw [Json.canonical_array]
    cases items with
    | nil => rfl
    | cons tag items =>
      obtain ⟨htag, hitems⟩ := List.forall_mem_cons.1 hitems
      rw [List.map_cons, readNode, readNode, ignoresOrder_kind place htag]
      apply Option.bind_congr
      intro kind _
      exact Record.ofItems?_bind_map_canonical (ofRecord?_of_reordered hread kind) kind.parts hitems
  | @object members hnodup hmembers =>
    obtain ⟨members', heq, hperm⟩ := Json.exists_canonical_object hnodup
    -- the kind is found first, and the members that are left make the record
    have hparts := hperm.filter (·.1 ≠ "kind")
    rw [List.filter_map] at hparts
    rw [heq, readNode_object, readNode_object, kindIn?_of_perm place hmembers hperm]
    apply Option.bind_congr
    intro kind _
    apply Record.ofMembers?_bind_of_perm (ofRecord?_of_reordered hread kind) kind.parts _ _ hparts
    · exact hnodup.sublist (List.filter_sublist.map _)
    · intro m hm
      exact hmembers m (List.mem_filter.1 hm).1

theorem ignoresOrder_readWithin (depth : Nat) : IgnoresOrder (readWithin depth) := by
  induction depth with
  | zero => exact fun _ _ => rfl
  | succ depth ih => exact ignoresOrder_readNode .inner ih

/-- **An expression is read from its members in any order.** -/
theorem ignoresOrder : IgnoresOrder read? := by
  intro j hj
  have hreadable : j.canonical.readable = j.readable := Bool.eq_iff_iff.2 hj.readable_canonical_iff
  rw [read?, read?, hreadable, hj.nesting_canonical]
  split
  · exact ignoresOrder_readNode .outer (ignoresOrder_readWithin _) hj
  · rfl

end Expr

end Formulary
