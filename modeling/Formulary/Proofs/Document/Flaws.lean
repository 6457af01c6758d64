import Formulary.Proofs.Document.Edits
import Formulary.Proofs.Document.Misspelling

/-!
# Flaws of a document

A flaw anywhere in the document of an expression (`Flaw`) keeps everything around it from being read, up to the root
(`Sense.Within.read?_eq_none`). It is never taken for an operand that is absent, nor left out of its list.
-/

namespace Formulary

open Json (given)

/-! ## Parts that are not read -/

theorem Record.get?_zip (positional : Bool) {names : List String} (hnodup : names.Nodup) {i : Nat} {name : String}
    (hi : names[i]? = some name) (items : List Json) : get? ⟨positional, names.zip items⟩ name = items[i]? := by
  induction names generalizing i items with
  | nil => exact absurd hi (by simp)
  | cons first names ih =>
    obtain ⟨hfirst, hnodup⟩ := List.nodup_cons.1 hnodup
    cases items with
    | nil => rfl
    | cons item items =>
      cases i with
      | zero =>
        obtain rfl := Option.some.inj hi
        exact get?_cons_self ..
      | succ i =>
        have hne : first ≠ name := fun heq => hfirst (heq ▸ List.mem_of_getElem? hi)
        rw [List.zip_cons_cons, get?_cons_ne positional hne]
        exact ih hnodup hi items

namespace Sense
variable {r : Record} {name : String}

theorem operand_eq_none (h : Sense.slot.part? (r.get? name) = none) : r.operand name Sense.slot.read? = none := by
  unfold Record.operand
  cases hj : r.get? name with
  | none =>
    rw [hj] at h
    exact absurd h (by simp [part?, omitted?])
  | some j =>
    rw [hj] at h
    exact h

end Sense

/-- A node is not read if one of its parts is not. -/
theorem Expr.ofRecord?_eq_none {r : Record} {kind : Kind} {name : String} {part : Sense}
    (hpart : (name, part) ∈ kind.fields) (h : part.part? (r.get? name) = none) :
    ofRecord? (readAt .inner) r kind = none := by
  have hslot (heq : part = .slot) : r.operand name (Json.toOption? (readAt .inner)) = none := by
    subst heq
    exact Sense.operand_eq_none h
  have hslots (heq : part = .slots) :
      r.withDefault name [] (Json.toList? (Json.toOption? (readAt .inner))) = none := by
    subst heq
    exact (Sense.slots.withDefault_eq_part? name rfl).trans h
  cases kind with
  | constant =>
    obtain ⟨rfl, rfl⟩ : name = "value" ∧ part = .number := by simpa [Kind.fields] using hpart
    have hvalue : r.required "value" Json.toFloat? = none := (Sense.number.required_eq_part? _ rfl).trans h
    simp [ofRecord?, hvalue]
  | euler | mastery => exact absurd hpart List.not_mem_nil
  | chain op =>
    obtain ⟨rfl, hsense⟩ : name = "values" ∧ part = .slots := by simpa [Kind.fields] using hpart
    simp [ofRecord?, hslots hsense]
  | extremum side =>
    obtain ⟨rfl, hsense⟩ : name = "expressions" ∧ part = .slots := by simpa [Kind.fields] using hpart
    simp [ofRecord?, hslots hsense]
  | exponential =>
    obtain ⟨rfl, hsense⟩ : name = "power" ∧ part = .slot := by simpa [Kind.fields] using hpart
    simp [ofRecord?, hslot hsense]
  | power =>
    simp only [Kind.fields, List.mem_cons, Prod.mk.injEq, List.not_mem_nil, or_false] at hpart
    rcases hpart with ⟨rfl, hsense⟩ | ⟨rfl, hsense⟩ <;> simp [ofRecord?, hslot hsense]
  | logarithmic =>
    simp only [Kind.fields, List.mem_cons, Prod.mk.injEq, List.not_mem_nil, or_false] at hpart
    rcases hpart with ⟨rfl, hsense⟩ | ⟨rfl, hsense⟩ <;> simp [ofRecord?, hslot hsense]
  | clamp =>
    simp only [Kind.fields, List.mem_cons, Prod.mk.injEq, List.not_mem_nil, or_false] at hpart
    rcases hpart with ⟨rfl, hsense⟩ | ⟨rfl, hsense⟩ | ⟨rfl, hsense⟩ <;> simp [ofRecord?, hslot hsense]
  | coreStat =>
    obtain ⟨rfl, rfl⟩ : name = "stat" ∧ part = .id .stat := by simpa [Kind.fields] using hpart
    have hstat : r.required "stat" (Document.ofJson? : Json → Option StatId) = none :=
      ((Sense.id .stat).required_eq_part? _ rfl).trans h
    simp [ofRecord?, hstat]
  | derivedStat =>
    obtain ⟨rfl, rfl⟩ : name = "stat" ∧ part = .derivedStat := by simpa [Kind.fields] using hpart
    have hstat : r.required "stat" (DerivedStat.read? .inner) = none := (Sense.derivedStat.required_eq_part? _ rfl).trans h
    simp [ofRecord?, hstat]

def Modifier.ofRecord? (r : Record) : Option Modifier := do
  let stat ← r.required "stat" Document.ofJson?
  let weight ← r.required "weight" Document.ofJson?
  let op ← r.required "op" (Operator.read? .inner)
  return ⟨stat, weight, op⟩

theorem Modifier.read?_eq_bind (j : Json) :
    read? .inner j = (Record.ofJson? ["stat", "weight", "op"] j).bind ofRecord? :=
  rfl

/-- A modifier is not read if one of its parts is not. -/
theorem Modifier.ofRecord?_eq_none {r : Record} {members : List (String × Json)} {name : String} {part : Sense}
    (hpart : (name, part) ∈ Sense.modifier.fields members) (h : part.part? (r.get? name) = none) :
    ofRecord? r = none := by
  simp only [Sense.fields, List.mem_cons, Prod.mk.injEq, List.not_mem_nil, or_false] at hpart
  rcases hpart with ⟨rfl, rfl⟩ | ⟨rfl, rfl⟩ | ⟨rfl, rfl⟩
  · have hstat : r.required "stat" (Document.ofJson? : Json → Option StatId) = none :=
      ((Sense.id .stat).required_eq_part? _ rfl).trans h
    simp [ofRecord?, hstat]
  · have hweight : r.required "weight" (Document.ofJson? : Json → Option Int32) = none :=
      (Sense.weight.required_eq_part? _ rfl).trans h
    simp [ofRecord?, hweight]
  · have hop : r.required "op" (Operator.read? .inner) = none := (Sense.operator.required_eq_part? _ rfl).trans h
    simp [ofRecord?, hop]

def DerivedStat.ofRecord? (r : Record) : Option DerivedStat := do
  let id ← r.required "id" Document.ofJson?
  let modifiers ← r.withDefault "modifiers" [] (Json.toList? (Modifier.read? .inner))
  return ⟨id, modifiers⟩

theorem DerivedStat.read?_eq_bind (j : Json) :
    read? .inner j = (Record.ofJson? ["id", "modifiers"] j).bind ofRecord? :=
  rfl

/-- A derived stat is not read if one of its parts is not. -/
theorem DerivedStat.ofRecord?_eq_none {r : Record} {members : List (String × Json)} {name : String} {part : Sense}
    (hpart : (name, part) ∈ Sense.derivedStat.fields members) (h : part.part? (r.get? name) = none) :
    ofRecord? r = none := by
  simp only [Sense.fields, List.mem_cons, Prod.mk.injEq, List.not_mem_nil, or_false] at hpart
  rcases hpart with ⟨rfl, rfl⟩ | ⟨rfl, rfl⟩
  · have hid : r.required "id" (Document.ofJson? : Json → Option DerivedStatId) = none :=
      ((Sense.id .derivedStat).required_eq_part? _ rfl).trans h
    simp [ofRecord?, hid]
  · have hmodifiers : r.withDefault "modifiers" [] (Json.toList? (Modifier.read? .inner)) = none :=
      (Sense.modifiers.withDefault_eq_part? _ rfl).trans h
    simp [ofRecord?, hmodifiers]

/-! ## Records that are not read -/

section
variable {α : Type} {names : List String} {name : String} {part : Sense} {f : Record → Option α}
  (hf : ∀ r, part.part? (r.get? name) = none → f r = none)
include hf

theorem Record.ofMembers?_bind_eq_none {members : List (String × Json)} (hname : name ∈ names)
    (h : part.whole? (given members name) = none) : (ofMembers? names members).bind f = none := by
  rw [ofMembers?_eq_given]
  split
  · next hle =>
    apply hf
    rw [get?_eq_given]
    match hgiven : given members name, hle name hname with
    | [], _ => rwa [hgiven] at h
    | [j], _ => rwa [hgiven] at h
  · rfl

theorem Record.ofItems?_bind_eq_none {items : List Json} {i : Nat} (hnodup : names.Nodup) (hi : names[i]? = some name)
    (h : part.part? items[i]? = none) : (ofItems? names items).bind f = none := by
  unfold ofItems?
  split
  · apply hf
    rw [get?_zip true hnodup hi]
    exact h
  · rfl

end

namespace Sense

/-- The parts of an array that is read in a sense, in their order. That of a node begins with its kind. -/
def positions (sense : Sense) (items : List Json) : List (String × Sense) :=
  sense.fields (["kind"].zip items)

variable {members : List (String × Json)} {items : List Json} {name : String} {part : Sense}

theorem readAt_object_eq_none {place : Place} (hpart : (name, part) ∈ (Sense.node place).fields members)
    (h : part.whole? (given members name) = none) : Expr.readAt place (.object members) = none := by
  rw [Expr.readAt_object]
  cases hkind : Json.kindIn? place members with
  | none => rfl
  | some kind =>
    rw [fields, hkind] at hpart
    rcases List.mem_cons.1 hpart with heq | hpart
    · obtain ⟨rfl, rfl⟩ := Prod.mk.inj heq
      exact absurd (hkind.symm.trans h) (by simp)
    · have hname : name ∈ kind.parts := kind.fields_names ▸ List.mem_map_of_mem hpart
      exact Record.ofMembers?_bind_eq_none (fun r hr => Expr.ofRecord?_eq_none hpart hr) hname h

theorem readAt_array_eq_none {place : Place} {i : Nat}
    (hpart : ((Sense.node place).positions items)[i]? = some (name, part)) (h : part.part? items[i]? = none) :
    Expr.readAt place (.array items) = none := by
  rw [Expr.readAt_eq]
  cases items with
  | nil => rfl
  | cons tag items =>
    have hkindIn : Json.kindIn? place [("kind", tag)] = Kind.read? place tag := rfl
    show (Kind.read? place tag).bind (fun kind =>
      (Record.ofItems? kind.parts items).bind fun r => Expr.ofRecord? (Expr.readAt .inner) r kind) = none
    cases hkind : Kind.read? place tag with
    | none => rfl
    | some kind =>
      have hpart' : (("kind", Sense.kind place) :: kind.fields)[i]? = some (name, part) := by
        rw [positions, fields] at hpart
        simpa [hkindIn, hkind] using hpart
      cases i with
      | zero =>
        obtain ⟨rfl, rfl⟩ := Prod.mk.inj (Option.some.inj hpart')
        exact absurd (hkind.symm.trans h) (by simp)
      | succ i =>
        have hname : kind.parts[i]? = some name := by
          rw [← kind.fields_names, List.getElem?_map]
          exact congrArg (Option.map Prod.fst) hpart'
        have hmem : (name, part) ∈ kind.fields := List.mem_of_getElem? hpart'
        exact Record.ofItems?_bind_eq_none (fun r hr => Expr.ofRecord?_eq_none hmem hr) kind.parts_nodup.1 hname h

/-- **An object is not read if one of its parts is not.** -/
theorem read?_object_eq_none {sense : Sense} (hpart : (name, part) ∈ sense.fields members)
    (h : part.whole? (given members name) = none) : sense.read? (.object members) = none := by
  have hname : name ∈ (sense.fields members).map (·.1) := List.mem_map_of_mem hpart
  cases sense with
  | node place => exact readAt_object_eq_none hpart h
  | slot =>
    have hnone : Expr.readAt .inner (.object members) = none := readAt_object_eq_none hpart h
    exact congrArg (Option.map some) hnone
  | derivedStat =>
    refine (DerivedStat.read?_eq_bind _).trans ?_
    exact Record.ofMembers?_bind_eq_none (fun r hr => DerivedStat.ofRecord?_eq_none hpart hr) hname h
  | modifier =>
    refine (Modifier.read?_eq_bind _).trans ?_
    exact Record.ofMembers?_bind_eq_none (fun r hr => Modifier.ofRecord?_eq_none hpart hr) hname h
  | _ => exact absurd hpart List.not_mem_nil

/-- **An array is not read if one of its parts is not.** -/
theorem read?_array_eq_none {sense : Sense} {i : Nat} (hpart : (sense.positions items)[i]? = some (name, part))
    (h : part.part? items[i]? = none) : sense.read? (.array items) = none := by
  have hname : ((sense.positions items).map (·.1))[i]? = some name := by
    rw [List.getElem?_map, hpart]
    rfl
  have hmem : (name, part) ∈ sense.positions items := List.mem_of_getElem? hpart
  have hnodup : ((sense.positions items).map (·.1)).Nodup := sense.nodup_fields _
  cases sense with
  | node place => exact readAt_array_eq_none hpart h
  | slot =>
    have hnone : Expr.readAt .inner (.array items) = none := readAt_array_eq_none hpart h
    exact congrArg (Option.map some) hnone
  | derivedStat =>
    refine (DerivedStat.read?_eq_bind _).trans ?_
    exact Record.ofItems?_bind_eq_none (fun r hr => DerivedStat.ofRecord?_eq_none hmem hr) hnodup hname h
  | modifier =>
    refine (Modifier.read?_eq_bind _).trans ?_
    exact Record.ofItems?_bind_eq_none (fun r hr => Modifier.ofRecord?_eq_none hmem hr) hnodup hname h
  | _ => exact absurd hmem List.not_mem_nil

/-! ## What stands inside a value -/

/-- Whether a value in some sense has another one right inside it, which has a sense of its own. -/
inductive HasPart : Sense → Json → Sense → Json → Prop where
  /-- a member of an object -/
  | member {sense part : Sense} {members : List (String × Json)} {name : String} {j : Json} :
    (name, part) ∈ sense.fields members → (name, j) ∈ members → HasPart sense (.object members) part j
  /-- an item of an array that spells a record -/
  | position {sense part : Sense} {items : List Json} {name : String} {j : Json} {i : Nat} :
    (sense.positions items)[i]? = some (name, part) → items[i]? = some j → HasPart sense (.array items) part j
  /-- an item of a list -/
  | item {sense part : Sense} {items : List Json} {j : Json} :
    sense.item? = some part → j ∈ items → HasPart sense (.array items) part j

/-- Whether a value in some sense has another one inside it, at any depth. -/
inductive Within : Sense → Json → Sense → Json → Prop where
  | self {sense : Sense} {j : Json} : Within sense j sense j
  | part {sense part inner : Sense} {j k v : Json} : HasPart sense j part k → Within part k inner v →
    Within sense j inner v

theorem whole?_eq_none {sense : Sense} {vs : List Json} {j : Json} (hj : j ∈ vs) (h : sense.read? j = none) :
    sense.whole? vs = none := by
  match vs, hj with
  | [_], hj =>
    obtain rfl := List.mem_singleton.1 hj
    exact h
  | _ :: _ :: _, _ => rfl

/-- **What is right inside a value has to be read**, or the value is not read. -/
theorem HasPart.read?_eq_none {sense part : Sense} {j k : Json} (h : HasPart sense j part k)
    (hk : part.read? k = none) : sense.read? j = none := by
  cases h with
  | @member _ members name _ hpart hmem =>
    have hgiven : k ∈ given members name := List.mem_map.2 ⟨_, List.mem_filter.2 ⟨hmem, decide_eq_true rfl⟩, rfl⟩
    exact read?_object_eq_none hpart (whole?_eq_none hgiven hk)
  | position hpart hitem =>
    refine read?_array_eq_none hpart ?_
    rw [hitem]
    exact hk
  | item hitem hmem =>
    cases sense with
    | slots =>
      obtain rfl := Option.some.inj hitem
      exact mapM_eq_none_of_mem hmem hk
    | modifiers =>
      obtain rfl := Option.some.inj hitem
      exact mapM_eq_none_of_mem hmem hk
    | ignored =>
      obtain rfl := Option.some.inj hitem
      exact absurd hk (by simp [read?])
    | _ => exact absurd hitem (by simp [item?])

/-- **What is inside a value, at any depth, has to be read**, or the value is not read. -/
theorem Within.read?_eq_none {sense inner : Sense} {j v : Json} (h : Within sense j inner v)
    (hv : inner.read? v = none) : sense.read? j = none := by
  induction h with
  | self => exact hv
  | part hpart _ ih => exact hpart.read?_eq_none (ih hv)

end Sense

/-! ## Flaws -/

/-- Whether a value stands for a kind: as its name or, inside a node, as its number. -/
inductive Kind.StandsFor (place : Place) (kind : Kind) : Json → Prop where
  | name : StandsFor place kind (.text kind.name)
  | number {n : Nat} : place = .inner → Kind.all[n]? = some kind → StandsFor place kind (.whole n)

theorem Kind.read?_eq_some_iff {place : Place} {kind : Kind} {j : Json} :
    read? place j = some kind ↔ kind.StandsFor place j := by
  constructor
  · intro h
    unfold read? at h
    split at h
    · next s =>
      have hname : kind.name = s := by simpa using List.find?_some h
      subst hname
      exact .name
    · next n =>
      split at h
      · next hn =>
        rw [← Int.toNat_of_nonneg hn.2]
        exact .number hn.1 h
      · exact absurd h (by simp)
    · exact absurd h (by simp)
  · intro h
    cases h with
    | name => exact ofName?_name kind
    | number hplace hn => simp [read?, hplace, hn]

/-- What can be wrong with a value in some sense. -/
inductive Flaw : Sense → Json → Prop where
  /-- A record is given a part that it knows more than once. -/
  | repeated {sense part : Sense} {members : List (String × Json)} {name : String} :
    (name, part) ∈ sense.fields members → 2 ≤ (given members name).length → Flaw sense (.object members)
  /-- A record is not given a part that it has to have. -/
  | lacking {sense part : Sense} {members : List (String × Json)} {name : String} :
    (name, part) ∈ sense.fields members → part.omitted? = none → given members name = [] → Flaw sense (.object members)
  /-- A record that is spelled as an array ends before a part that it has to have. -/
  | short {sense part : Sense} {items : List Json} {name : String} {i : Nat} :
    (sense.positions items)[i]? = some (name, part) → part.omitted? = none → items.length ≤ i →
      Flaw sense (.array items)
  /-- Something that is neither an object nor an array, nor an operand that is absent, stands for a record. -/
  | scalar {sense : Sense} {j : Json} : sense.isRecord = true → (∀ members, j ≠ .object members) →
    (∀ items, j ≠ .array items) → (sense = .slot → j ≠ .null) → Flaw sense j
  /-- A kind is none that is known. -/
  | kind {place : Place} {j : Json} : (∀ kind : Kind, ¬ kind.StandsFor place j) → Flaw (.kind place) j
  /-- A literal is no number. -/
  | number {j : Json} : (∀ x, j ≠ .real x) → (∀ n, j ≠ .whole n) → Flaw .number j
  /-- A weight is no whole number of 32 bits. -/
  | weight {j : Json} : (∀ n : Int, j = .whole n → n < -2147483648 ∨ 2147483647 < n) → Flaw .weight j
  /-- Something else, such as `null`, stands for a list. -/
  | list {sense : Sense} {j : Json} : sense = .slots ∨ sense = .modifiers → (∀ items, j ≠ .array items) → Flaw sense j

/-- **What has a flaw is not read.** -/
theorem Flaw.read?_eq_none {sense : Sense} {j : Json} (h : Flaw sense j) : sense.read? j = none := by
  cases h with
  | @repeated _ part members name hpart hlength =>
    refine Sense.read?_object_eq_none hpart ?_
    match given members name, hlength with
    | _ :: _ :: _, _ => rfl
  | lacking hpart homitted hgiven =>
    refine Sense.read?_object_eq_none hpart ?_
    rw [hgiven]
    exact homitted
  | short hpart homitted hlength =>
    refine Sense.read?_array_eq_none hpart ?_
    rw [List.getElem?_eq_none hlength]
    exact homitted
  | scalar hrecord hobject harray hnull =>
    have hnode (place : Place) : Expr.readAt place j = none := by
      cases j with
      | object members => exact absurd rfl (hobject members)
      | array items => exact absurd rfl (harray items)
      | _ => rfl
    cases sense with
    | node place => exact hnode place
    | slot =>
      show Json.toOption? (Expr.readAt .inner) j = none
      rw [Json.toOption?_of_ne_null (hnull rfl), hnode]
      rfl
    | derivedStat | modifier =>
      cases j with
      | object members => exact absurd rfl (hobject members)
      | array items => exact absurd rfl (harray items)
      | _ => rfl
    | _ => exact absurd hrecord Bool.false_ne_true
  | @kind place _ hkind =>
    show Kind.read? place j = none
    rw [Option.eq_none_iff_forall_ne_some]
    intro kind hread
    exact hkind kind (Kind.read?_eq_some_iff.1 hread)
  | number hreal hwhole =>
    cases j with
    | real x => exact absurd rfl (hreal x)
    | whole n => exact absurd rfl (hwhole n)
    | _ => rfl
  | weight hrange =>
    cases j with
    | whole n =>
      have hlow := Int32.le_toInt (Int32.ofInt n)
      have hhigh := Int32.toInt_lt (Int32.ofInt n)
      have hne : (Int32.ofInt n).toInt ≠ n := by
        have := hrange n rfl
        omega
      exact if_neg hne
    | _ => rfl
  | list hlist harray =>
    have hnone {α : Type} (read : Json → Option α) : Json.toList? read j = none := by
      cases j with
      | array items => exact absurd rfl (harray items)
      | _ => rfl
    rcases hlist with rfl | rfl
    · exact hnone _
    · exact hnone _

/-- **A flaw anywhere inside a value keeps it from being read.** -/
theorem Sense.Within.read?_eq_none_of_flaw {sense inner : Sense} {j v : Json} (h : Within sense j inner v)
    (hv : Flaw inner v) : sense.read? j = none :=
  h.read?_eq_none hv.read?_eq_none

end Formulary
