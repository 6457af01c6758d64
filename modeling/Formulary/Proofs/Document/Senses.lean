import Mathlib.Data.List.Nodup
import Formulary.Proofs.Document.Expr
import Formulary.Proofs.Document.Nodes

/-!
# What the values of an expression document are read as

In a document that spells an expression every value is read in some sense: as a node, as the operand in a slot, as
a derived stat and so on (`Sense.read?`). Objects with parts that are given alike are read alike
(`Sense.read?_object_congr`).
-/

namespace Formulary

/-! ## What an object gives a name -/

namespace Json

/-- The values that some members give a name, in order. -/
def given (members : List (String × Json)) (name : String) : List Json :=
  (members.filter (·.1 = name)).map (·.2)

section
variable {members before after : List (String × Json)} {name other : String}

theorem given_perm {members' : List (String × Json)} (h : members.Perm members') (name : String) :
    (given members name).Perm (given members' name) :=
  (h.filter _).map _

theorem given_middle (j : Json) :
    given (before ++ (name, j) :: after) name = given before name ++ j :: given after name := by
  simp [given, List.filter_append]

theorem given_middle_ne (h : other ≠ name) (j : Json) :
    given (before ++ (other, j) :: after) name = given (before ++ after) name := by
  simp [given, List.filter_append, h]

theorem given_eq_nil (h : name ∉ members.map (·.1)) : given members name = [] := by
  rw [given, List.map_eq_nil_iff, List.filter_eq_nil_iff]
  intro m hm heq
  exact h (List.mem_map.2 ⟨m, hm, of_decide_eq_true heq⟩)

/-- Leaving one name out changes nothing for the others. -/
theorem given_filter_ne (h : name ≠ other) : given (members.filter (·.1 ≠ other)) name = given members name := by
  rw [given, given, List.filter_filter]
  congr 1
  apply List.filter_congr
  intro m _
  by_cases hm : m.1 = name <;> simp [hm, h]

end

end Json

open Json (given)

namespace Record

theorem ofMembers?_eq_given (names : List String) (members : List (String × Json)) :
    ofMembers? names members =
      if ∀ name ∈ names, (given members name).length ≤ 1 then some ⟨false, members⟩ else none := by
  simp only [ofMembers?, given, List.length_map, List.countP_eq_length_filter]

theorem get?_eq_given (positional : Bool) (members : List (String × Json)) (name : String) :
    get? ⟨positional, members⟩ name = (given members name).head? := by
  rw [get?, given, List.head?_map, List.head?_filter]

end Record

/-! ## Senses -/

/-- What a value in the document of an expression can be read as. -/
inductive Sense where
  | node (place : Place)
  | slot
  | slots
  | kind (place : Place)
  | number
  | id (of : IdKind)
  | derivedStat
  | modifiers
  | modifier
  | weight
  | operator
  /-- the value of a member that a record does not know -/
  | ignored
deriving DecidableEq

namespace Sense

def Value : Sense → Type
  | .node _ => Expr
  | .slot => Option Expr
  | .slots => List (Option Expr)
  | .kind _ => Kind
  | .number => Float
  | .id k => Id k
  | .derivedStat => DerivedStat
  | .modifiers => List Modifier
  | .modifier => Modifier
  | .weight => Int32
  | .operator => Operator
  | .ignored => Unit

def read? : (sense : Sense) → Json → Option sense.Value
  | .node place => Expr.readAt place
  | .slot => Json.toOption? (Expr.readAt .inner)
  | .slots => Json.toList? (Json.toOption? (Expr.readAt .inner))
  | .kind place => Kind.read? place
  | .number => Json.toFloat?
  | .id k => (Document.ofJson? : Json → Option (Id k))
  | .derivedStat => DerivedStat.read? .inner
  | .modifiers => Json.toList? (Modifier.read? .inner)
  | .modifier => Modifier.read? .inner
  | .weight => (Document.ofJson? : Json → Option Int32)
  | .operator => Operator.read? .inner
  | .ignored => fun _ => some ()

/-- What a part in this sense counts as if an object does not give it. -/
def omitted? : (sense : Sense) → Option sense.Value
  | .slot => some (none : Option Expr)
  | .slots => some ([] : List (Option Expr))
  | .modifiers => some ([] : List Modifier)
  | _ => none

/-- The value that says the same as leaving the part out. -/
def blank? : Sense → Option Json
  | .slot => some .null
  | .slots | .modifiers => some (.array [])
  | _ => none

theorem read?_blank {sense : Sense} {j : Json} (h : sense.blank? = some j) : sense.read? j = sense.omitted? := by
  cases sense with
  | slot | slots | modifiers =>
    obtain rfl := Option.some.inj h
    rfl
  | _ => exact absurd h (by simp [blank?])

/-- What is read for a part, of which `j` is given. -/
def part? (sense : Sense) : (j : Option Json) → Option sense.Value
  | some j => sense.read? j
  | none => sense.omitted?

/-- What is read of an object for a part, of all that it gives for it. -/
def whole? (sense : Sense) : List Json → Option sense.Value
  | [] => sense.omitted?
  | [j] => sense.read? j
  | _ => none

end Sense

/-! ## The parts of records -/

/-- The parts of a node besides its kind, each with its sense. -/
def Kind.fields : Kind → List (String × Sense)
  | .constant => [("value", .number)]
  | .euler | .mastery => []
  | .chain _ => [("values", .slots)]
  | .power => [("base", .slot), ("exponent", .slot)]
  | .exponential => [("power", .slot)]
  | .logarithmic => [("base", .slot), ("power", .slot)]
  | .clamp => [("value", .slot), ("min", .slot), ("max", .slot)]
  | .extremum _ => [("expressions", .slots)]
  | .coreStat => [("stat", .id .stat)]
  | .derivedStat => [("stat", .derivedStat)]

theorem Kind.fields_names (k : Kind) : k.fields.map (·.1) = k.parts := by
  cases k <;> rfl

def Json.kindIn? (place : Place) (members : List (String × Json)) : Option Kind :=
  (Sense.kind place).whole? (given members "kind")

namespace Sense

/-- The parts of an object that is read in a sense, each with a sense of its own. Only records have parts. -/
def fields : Sense → List (String × Json) → List (String × Sense)
  | .node place, members => ("kind", .kind place) :: ((Json.kindIn? place members).map Kind.fields).getD []
  | .slot, members => ("kind", .kind .inner) :: ((Json.kindIn? .inner members).map Kind.fields).getD []
  | .derivedStat, _ => [("id", .id .derivedStat), ("modifiers", .modifiers)]
  | .modifier, _ => [("stat", .id .stat), ("weight", .weight), ("op", .operator)]
  | _, _ => []

theorem nodup_fields (sense : Sense) (members : List (String × Json)) : ((sense.fields members).map (·.1)).Nodup := by
  have hnode (place : Place) :
      ("kind" :: (((Json.kindIn? place members).map Kind.fields).getD []).map (·.1)).Nodup := by
    cases Json.kindIn? place members with
    | none => simp
    | some kind =>
      have hparts := kind.parts_nodup
      rw [Option.map_some, Option.getD_some, Kind.fields_names]
      exact List.nodup_cons.2 ⟨hparts.2, hparts.1⟩
  cases sense with
  | node place => exact hnode place
  | slot => exact hnode .inner
  | _ => simp [fields]

/-- A part has one sense. -/
theorem eq_of_mem_fields {sense part part' : Sense} {members : List (String × Json)} {name : String}
    (h : (name, part) ∈ sense.fields members) (h' : (name, part') ∈ sense.fields members) : part = part' :=
  (Prod.mk.inj (List.inj_on_of_nodup_map (sense.nodup_fields members) h h' rfl)).2

/-! ## Parts that are given alike -/

/-- Whether what is given for a part in two objects is read alike. -/
def Alike (sense : Sense) (vs vs' : List Json) : Prop :=
  (vs.length ≤ 1 ↔ vs'.length ≤ 1) ∧ (vs.length ≤ 1 → sense.part? vs.head? = sense.part? vs'.head?)

theorem alike_refl (sense : Sense) (vs : List Json) : sense.Alike vs vs :=
  ⟨Iff.rfl, fun _ => rfl⟩

theorem alike_of_perm (sense : Sense) {vs vs' : List Json} (h : vs.Perm vs') : sense.Alike vs vs' := by
  refine ⟨by rw [h.length_eq], fun hle => ?_⟩
  match vs, hle with
  | [], _ => rw [List.nil_perm.1 h]
  | [j], _ => rw [List.singleton_perm.1 h]

theorem alike_middle {sense : Sense} {j j' : Json} (h : sense.read? j = sense.read? j') (before after : List Json) :
    sense.Alike (before ++ j :: after) (before ++ j' :: after) := by
  refine ⟨by simp, fun hle => ?_⟩
  cases before with
  | nil => exact h
  | cons k before => rfl

theorem alike_blank {sense : Sense} {j : Json} (h : sense.blank? = some j) : sense.Alike [] [j] :=
  ⟨by simp, fun _ => (read?_blank h).symm⟩

theorem Alike.whole?_eq {sense : Sense} {vs vs' : List Json} (h : sense.Alike vs vs') :
    sense.whole? vs = sense.whole? vs' := by
  have hwhole {vs : List Json} (hle : vs.length ≤ 1) : sense.whole? vs = sense.part? vs.head? := by
    match vs, hle with
    | [], _ => rfl
    | [j], _ => rfl
  have hmany {vs : List Json} (hle : ¬ vs.length ≤ 1) : sense.whole? vs = none := by
    match vs, hle with
    | [], hle => exact absurd (Nat.zero_le 1) hle
    | [j], hle => exact absurd (Nat.le_refl 1) hle
    | j :: k :: vs, _ => rfl
  by_cases hle : vs.length ≤ 1
  · rw [hwhole hle, hwhole (h.1.1 hle), h.2 hle]
  · rw [hmany hle, hmany fun hle' => hle (h.1.2 hle')]

end Sense

theorem Sense.Alike.part?_eq {sense : Sense} {members members' : List (String × Json)} {name : String}
    (h : sense.Alike (given members name) (given members' name)) (hle : (given members name).length ≤ 1) :
    sense.part? (Record.get? ⟨false, members⟩ name) = sense.part? (Record.get? ⟨false, members'⟩ name) := by
  rw [Record.get?_eq_given, Record.get?_eq_given]
  exact h.2 hle

theorem Record.ofMembers?_bind_congr {α : Type} {names : List String} {members members' : List (String × Json)}
    {f : Record → Option α}
    (hlength : ∀ name ∈ names, (given members name).length ≤ 1 ↔ (given members' name).length ≤ 1)
    (hf : (∀ name ∈ names, (given members name).length ≤ 1) → f ⟨false, members⟩ = f ⟨false, members'⟩) :
    (ofMembers? names members).bind f = (ofMembers? names members').bind f := by
  rw [ofMembers?_eq_given, ofMembers?_eq_given]
  by_cases h : ∀ name ∈ names, (given members name).length ≤ 1
  · rw [if_pos h, if_pos fun name hname => (hlength name hname).1 (h name hname)]
    exact hf h
  · rw [if_neg h, if_neg fun h' => h fun name hname => (hlength name hname).2 (h' name hname)]

/-! ## Records -/

namespace Sense
variable {r r' : Record}

theorem required_eq_part? (sense : Sense) (name : String) (hsense : sense.omitted? = none) :
    r.required name sense.read? = sense.part? (r.get? name) := by
  unfold Record.required
  cases r.get? name with
  | none => exact hsense.symm
  | some j => rfl

theorem withDefault_eq_part? (sense : Sense) (name : String) {default : sense.Value}
    (hsense : sense.omitted? = some default) :
    r.withDefault name default sense.read? = sense.part? (r.get? name) := by
  unfold Record.withDefault
  cases r.get? name with
  | none => exact hsense.symm
  | some j => rfl

theorem operand_eq_part? (name : String) (hr : r.positional = false) :
    r.operand name Sense.slot.read? = Sense.slot.part? (r.get? name) := by
  unfold Record.operand
  cases r.get? name with
  | none => rw [hr]; rfl
  | some j => rfl

theorem required_congr (sense : Sense) (name : String) (hsense : sense.omitted? = none)
    (h : sense.part? (r.get? name) = sense.part? (r'.get? name)) :
    r.required name sense.read? = r'.required name sense.read? := by
  rw [sense.required_eq_part? name hsense, sense.required_eq_part? name hsense, h]

theorem withDefault_congr (sense : Sense) (name : String) {default : sense.Value}
    (hsense : sense.omitted? = some default)
    (h : sense.part? (r.get? name) = sense.part? (r'.get? name)) :
    r.withDefault name default sense.read? = r'.withDefault name default sense.read? := by
  rw [sense.withDefault_eq_part? name hsense, sense.withDefault_eq_part? name hsense, h]

theorem operand_congr (name : String) (hr : r.positional = false) (hr' : r'.positional = false)
    (h : Sense.slot.part? (r.get? name) = Sense.slot.part? (r'.get? name)) :
    r.operand name Sense.slot.read? = r'.operand name Sense.slot.read? := by
  rw [operand_eq_part? name hr, operand_eq_part? name hr', h]

end Sense

namespace Expr

/-- A node is what its parts are read as. -/
theorem ofRecord?_congr {r r' : Record} (hr : r.positional = false) (hr' : r'.positional = false) (kind : Kind)
    (h : ∀ f ∈ kind.fields, f.2.part? (r.get? f.1) = f.2.part? (r'.get? f.1)) :
    ofRecord? (readAt .inner) r kind = ofRecord? (readAt .inner) r' kind := by
  have hslot (name : String) (hf : (name, Sense.slot) ∈ kind.fields) :
      r.operand name (Json.toOption? (readAt .inner)) = r'.operand name (Json.toOption? (readAt .inner)) :=
    Sense.operand_congr name hr hr' (h (name, .slot) hf)
  have hslots (name : String) (hf : (name, Sense.slots) ∈ kind.fields) :
      r.withDefault name [] (Json.toList? (Json.toOption? (readAt .inner))) =
        r'.withDefault name [] (Json.toList? (Json.toOption? (readAt .inner))) :=
    Sense.withDefault_congr .slots name rfl (h (name, .slots) hf)
  cases kind with
  | constant =>
    have hvalue : r.required "value" Json.toFloat? = r'.required "value" Json.toFloat? :=
      Sense.required_congr .number "value" rfl (h ("value", .number) (by simp [Kind.fields]))
    simp only [ofRecord?, hvalue]
  | euler | mastery => rfl
  | chain op => simp only [ofRecord?, hslots "values" (by simp [Kind.fields])]
  | extremum side => simp only [ofRecord?, hslots "expressions" (by simp [Kind.fields])]
  | exponential => simp only [ofRecord?, hslot "power" (by simp [Kind.fields])]
  | power =>
    simp only [ofRecord?, hslot "base" (by simp [Kind.fields]), hslot "exponent" (by simp [Kind.fields])]
  | logarithmic =>
    simp only [ofRecord?, hslot "base" (by simp [Kind.fields]), hslot "power" (by simp [Kind.fields])]
  | clamp =>
    simp only [ofRecord?, hslot "value" (by simp [Kind.fields]), hslot "min" (by simp [Kind.fields]),
      hslot "max" (by simp [Kind.fields])]
  | coreStat =>
    have hstat : r.required "stat" (Document.ofJson? : Json → Option StatId) = r'.required "stat" Document.ofJson? :=
      Sense.required_congr (.id .stat) "stat" rfl (h ("stat", .id .stat) (by simp [Kind.fields]))
    simp only [ofRecord?, hstat]
  | derivedStat =>
    have hstat : r.required "stat" (DerivedStat.read? .inner) = r'.required "stat" (DerivedStat.read? .inner) :=
      Sense.required_congr .derivedStat "stat" rfl (h ("stat", .derivedStat) (by simp [Kind.fields]))
    simp only [ofRecord?, hstat]

/-- An object is read as the node of its kind. -/
theorem readNode_object (place : Place) (read : Json → Option Expr) (members : List (String × Json)) :
    readNode place read (.object members) = (Json.kindIn? place members).bind fun kind =>
      (Record.ofMembers? kind.parts (members.filter (·.1 ≠ "kind"))).bind fun r => ofRecord? read r kind := by
  rw [readNode, Json.kindIn?, given]
  split
  · next name tag htag =>
    rw [htag]
    rfl
  · next hne =>
    generalize members.filter (·.1 = "kind") = tags at hne
    rcases tags with _ | ⟨⟨name, tag⟩, _ | ⟨m, tags⟩⟩
    · rfl
    · exact absurd rfl (hne name tag)
    · rfl

/-- The kind is no part that a node of any kind looks for. -/
theorem readAt_object (place : Place) (members : List (String × Json)) :
    readAt place (.object members) = (Json.kindIn? place members).bind fun kind =>
      (Record.ofMembers? kind.parts members).bind fun r => ofRecord? (readAt .inner) r kind := by
  have hparts (kind : Kind) : (Record.ofMembers? kind.parts (members.filter (·.1 ≠ "kind"))).bind
        (fun r => ofRecord? (readAt .inner) r kind) =
      (Record.ofMembers? kind.parts members).bind fun r => ofRecord? (readAt .inner) r kind := by
    have hgiven {name : String} (hname : name ∈ kind.parts) :
        given (members.filter (·.1 ≠ "kind")) name = given members name :=
      Json.given_filter_ne fun h => kind.parts_nodup.2 (h ▸ hname)
    refine Record.ofMembers?_bind_congr (fun name hname => by rw [hgiven hname]) fun _ => ?_
    refine ofRecord?_congr rfl rfl kind fun f hf => ?_
    rw [Record.get?_eq_given, Record.get?_eq_given, hgiven (kind.fields_names ▸ List.mem_map_of_mem hf)]
  rw [readAt_eq, readNode_object]
  exact Option.bind_congr fun kind _ => hparts kind

end Expr

namespace Sense
variable {members members' : List (String × Json)}

theorem readAt_object_congr (place : Place)
    (h : ∀ f ∈ (Sense.node place).fields members, f.2.Alike (given members f.1) (given members' f.1)) :
    Expr.readAt place (.object members) = Expr.readAt place (.object members') := by
  have hkind : Json.kindIn? place members = Json.kindIn? place members' :=
    (h ("kind", .kind place) List.mem_cons_self).whole?_eq
  rw [Expr.readAt_object, Expr.readAt_object, ← hkind]
  refine Option.bind_congr fun kind hread => ?_
  have hfields : ∀ f ∈ kind.fields, f.2.Alike (given members f.1) (given members' f.1) := by
    intro f hf
    apply h f
    rw [fields, hread]
    exact List.mem_cons_of_mem _ hf
  refine Record.ofMembers?_bind_congr (fun name hname => ?_) fun hle => ?_
  · obtain ⟨f, hf, rfl⟩ := List.mem_map.1 (kind.fields_names ▸ hname)
    exact (hfields f hf).1
  · refine Expr.ofRecord?_congr rfl rfl kind fun f hf => ?_
    exact (hfields f hf).part?_eq (hle f.1 (kind.fields_names ▸ List.mem_map_of_mem hf))

theorem derivedStat_object_congr
    (h : ∀ f ∈ Sense.derivedStat.fields members, f.2.Alike (given members f.1) (given members' f.1)) :
    DerivedStat.read? .inner (.object members) = DerivedStat.read? .inner (.object members') := by
  have hid := h ("id", .id .derivedStat) (by simp [fields])
  have hmodifiers := h ("modifiers", .modifiers) (by simp [fields])
  refine Record.ofMembers?_bind_congr ?_ fun hle => ?_
  · simpa using ⟨hid.1, hmodifiers.1⟩
  · have hid' : Record.required ⟨false, members⟩ "id" (Document.ofJson? : Json → Option DerivedStatId) =
        Record.required ⟨false, members'⟩ "id" Document.ofJson? :=
      required_congr (.id .derivedStat) "id" rfl (hid.part?_eq (hle "id" (by simp)))
    have hmodifiers' : Record.withDefault ⟨false, members⟩ "modifiers" [] (Json.toList? (Modifier.read? .inner)) =
        Record.withDefault ⟨false, members'⟩ "modifiers" [] (Json.toList? (Modifier.read? .inner)) :=
      withDefault_congr .modifiers "modifiers" rfl (hmodifiers.part?_eq (hle "modifiers" (by simp)))
    rw [hid', hmodifiers']

theorem modifier_object_congr
    (h : ∀ f ∈ Sense.modifier.fields members, f.2.Alike (given members f.1) (given members' f.1)) :
    Modifier.read? .inner (.object members) = Modifier.read? .inner (.object members') := by
  have hstat := h ("stat", .id .stat) (by simp [fields])
  have hweight := h ("weight", .weight) (by simp [fields])
  have hop := h ("op", .operator) (by simp [fields])
  refine Record.ofMembers?_bind_congr ?_ fun hle => ?_
  · simpa using ⟨hstat.1, hweight.1, hop.1⟩
  · have hstat' : Record.required ⟨false, members⟩ "stat" (Document.ofJson? : Json → Option StatId) =
        Record.required ⟨false, members'⟩ "stat" Document.ofJson? :=
      required_congr (.id .stat) "stat" rfl (hstat.part?_eq (hle "stat" (by simp)))
    have hweight' : Record.required ⟨false, members⟩ "weight" (Document.ofJson? : Json → Option Int32) =
        Record.required ⟨false, members'⟩ "weight" Document.ofJson? :=
      required_congr .weight "weight" rfl (hweight.part?_eq (hle "weight" (by simp)))
    have hop' : Record.required ⟨false, members⟩ "op" (Operator.read? .inner) =
        Record.required ⟨false, members'⟩ "op" (Operator.read? .inner) :=
      required_congr .operator "op" rfl (hop.part?_eq (hle "op" (by simp)))
    rw [hstat', hweight', hop']

/-- **Objects whose parts are given alike are read alike.** As an operator an object has no parts, but may be read all
the same. -/
theorem read?_object_congr (sense : Sense)
    (h : ∀ f ∈ sense.fields members, f.2.Alike (given members f.1) (given members' f.1))
    (hop : sense = .operator →
      Operator.read? .inner (.object members) = Operator.read? .inner (.object members')) :
    sense.read? (.object members) = sense.read? (.object members') := by
  cases sense with
  | node place => exact readAt_object_congr place h
  | slot => exact congrArg (Option.map some) (readAt_object_congr .inner h)
  | derivedStat => exact derivedStat_object_congr h
  | modifier => exact modifier_object_congr h
  | operator => exact hop rfl
  | _ => rfl

end Sense

end Formulary
