import Formulary.Proofs.Document.DerivedStat
import Formulary.Proofs.Document.Order

/-!
# Records read back

A record is written with all of its parts, so what can be lost is a double that is not finite: `null` is written for
it, and where a number has to be `null` is not read. Hence `Document.RoundTrips` of every kind of record.
-/

namespace Formulary

open Json (Distinct Shuffled Restorable ReadsBack nesting)

/-! ## Values that are written plainly -/

/-- Whether a value is nested at most `depth` deep, gives no name twice and survives being written. -/
structure Json.Plain (depth : Nat) (j : Json) : Prop where
  distinct : Distinct j
  restorable : Restorable j
  nesting_le : nesting j ≤ depth

namespace Json

theorem plain_text (depth : Nat) (s : String) : Plain depth (.text s) :=
  ⟨.simple rfl, by simp [Restorable], Nat.zero_le _⟩

theorem plain_null (depth : Nat) : Plain depth .null :=
  ⟨.simple rfl, by simp [Restorable], Nat.zero_le _⟩

theorem plain_whole (depth : Nat) {n : Int} (h : Fits n) : Plain depth (.whole n) :=
  ⟨.simple rfl, by rwa [Restorable], Nat.zero_le _⟩

theorem plain_ofFloat (depth : Nat) {x : Float} (h : x.isFinite = true → ReadsBack x) : Plain depth (.ofFloat x) := by
  rw [ofFloat]
  split
  · next hx => exact ⟨.simple rfl, by rw [Restorable]; exact h hx, Nat.zero_le _⟩
  · exact plain_null depth

theorem plain_array {depth : Nat} {items : List Json} (h : ∀ j ∈ items, Plain depth j) :
    Plain (depth + 1) (.array items) where
  distinct := .array fun j hj => (h j hj).distinct
  restorable := by
    rw [Restorable, restorableItems_iff]
    exact fun j hj => (h j hj).restorable
  nesting_le := Nat.succ_le_succ (nestingItems_le_iff.2 fun j hj => (h j hj).nesting_le)

theorem plain_object {depth : Nat} {members : List (String × Json)} (hnodup : (members.map (·.1)).Nodup)
    (h : ∀ m ∈ members, Plain depth m.2) : Plain (depth + 1) (.object members) where
  distinct := .object hnodup fun m hm => (h m hm).distinct
  restorable := by
    rw [Restorable, restorableMembers_iff]
    exact fun m hm => (h m hm).restorable
  nesting_le := Nat.succ_le_succ (nestingMembers_le_iff.2 fun m hm => (h m hm).nesting_le)

end Json

theorem plain_table {α : Type} [Document α] {k : IdKind} {depth : Nat}
    (h : ∀ a : α, (Document.toJson a).Plain depth) (t : Table (Id k) α) : (Document.toJson t).Plain (depth + 1) := by
  have hinj : Function.Injective (Id.name : Id k → String) := fun _ _ heq => Named.text_inj heq
  have hnodup := t.nodup_keys.map hinj
  apply Json.plain_object
  · rw [List.map_map] at hnodup ⊢
    exact hnodup
  · rw [List.forall_mem_map]
    exact fun x _ => h x.2

theorem ofJson?_toJson_table {α : Type} [Document α] {k : IdKind}
    (h : ∀ a : α, (Document.ofJson? (Document.toJson a) : Option α) = some a) (t : Table (Id k) α) :
    (Document.ofJson? (Document.toJson t) : Option (Table (Id k) α)) = some t := by
  refine (ofJson?_entries h t.entries).trans ?_
  rw [Table.ofList_entries]

/-! ## Round trips -/

namespace Document

/-- Whether values of a type that are written with their members in any order are read back exactly if the doubles in
them are finite, and otherwise are not read. It is assumed that a finite double is read from what is written for it. -/
def RoundTrips (α : Type) [Document α] (numbers : α → List Float) : Prop :=
  ∀ a : α, (∀ x ∈ numbers a, x.isFinite = true → ReadsBack x) →
    Distinct (toJson a) ∧ ∀ (layout : Json.Layout) (j : Json), Shuffled (toJson a) j →
      (Document.parse (j.render layout) = .ok a ↔ ∀ x ∈ numbers a, x.isFinite = true) ∧
      ((∃ x ∈ numbers a, x.isFinite = false) →
        (Document.parse (j.render layout) : Except FormulaError α) = .error .malformed)

/-- The reader and the writer of a type are inverse to one another but for doubles that are not finite. -/
theorem roundTrips_of_read {α : Type} [Document α] {numbers : α → List Float}
    (hplain : ∀ a : α, (∀ x ∈ numbers a, x.isFinite = true → ReadsBack x) → (toJson a).Plain Json.deepest)
    (horder : IgnoresOrder (ofJson? : Json → Option α))
    (hread : ∀ a : α, ofJson? (toJson a) = Option.guard (fun a => (numbers a).all Float.isFinite) a) :
    RoundTrips α numbers := by
  intro a hnumbers
  obtain ⟨hdistinct, hrestorable, hnesting⟩ := hplain a hnumbers
  refine ⟨hdistinct, fun layout j hj => ?_⟩
  have hparse : Json.parse? (j.render layout) = some j := by
    refine Json.parse?_render layout (hj.restorable_iff.2 hrestorable) ?_
    rw [hj.nesting_eq]
    exact hnesting
  have hvalue : (Json.parse? (j.render layout)).bind (ofJson? : Json → Option α) =
      Option.guard (fun a => (numbers a).all Float.isFinite) a := by
    rw [hparse, Option.bind_some, horder.of_shuffled hj, hread]
  rw [Document.parse, hvalue, Option.guard_eq_ite]
  by_cases hfinite : (numbers a).all Float.isFinite = true
  · have hall := List.all_eq_true.1 hfinite
    rw [if_pos hfinite]
    refine ⟨iff_of_true rfl hall, ?_⟩
    rintro ⟨x, hx, hinfinite⟩
    simp [hall x hx] at hinfinite
  · rw [if_neg hfinite]
    refine ⟨iff_of_false (by simp) ?_, fun _ => rfl⟩
    exact fun hall => hfinite (List.all_eq_true.2 hall)

end Document

/-! ## Characters and abilities -/

theorem CharacterData.plain_toJson (d : CharacterData) (depth : Nat) : d.toJson.Plain (depth + 2) := by
  have htable {k : IdKind} (t : Table (Id k) Int32) : (Document.toJson t).Plain (depth + 1) :=
    plain_table (fun n => Json.plain_whole depth (Json.fits_int32 n)) t
  apply Json.plain_object
  · simp
  · simp [Json.plain_text, htable]

theorem CharacterData.read?_toJson (d : CharacterData) : CharacterData.read? d.toJson = some d := by
  have hr : Record.ofJson? ["id", "core_stats", "derived_adjustments"] d.toJson =
      some ⟨false, [("id", .text d.id), ("core_stats", Document.toJson d.coreStats),
        ("derived_adjustments", Document.toJson d.adjustments)]⟩ :=
    Record.ofMembers?_of_nodup rfl (by decide)
  rw [CharacterData.read?, hr]
  simp [Record.required, Record.withDefault, Record.get?, Json.toText?, ofJson?_toJson_table ofJson?_toJson_int32]

theorem Character.plain_toJson (c : Character) (depth : Nat) : c.toJson.Plain (depth + 3) := by
  have htable : (Document.toJson c.abilities).Plain (depth + 2) :=
    plain_table (fun n => Json.plain_whole (depth + 1) (Json.fits_uint32 n)) c.abilities
  apply Json.plain_object
  · simp
  · simp [c.data.plain_toJson, htable]

theorem Character.read?_toJson (c : Character) : Character.read? c.toJson = some c := by
  have hr : Record.ofJson? ["data", "abilities"] c.toJson =
      some ⟨false, [("data", c.data.toJson), ("abilities", Document.toJson c.abilities)]⟩ :=
    Record.ofMembers?_of_nodup rfl (by decide)
  rw [Character.read?, hr]
  simp [Record.required, Record.withDefault, Record.get?, CharacterData.read?_toJson,
    ofJson?_toJson_table ofJson?_toJson_uint32]

theorem Ability.plain_toJson (a : Ability) (h : a.cooldown.isFinite = true → ReadsBack a.cooldown) (depth : Nat) :
    a.toJson.Plain (depth + 2) := by
  have hthresholds : (Document.toJson a.thresholds).Plain (depth + 1) := by
    apply Json.plain_array
    rw [List.forall_mem_map]
    exact fun n _ => Json.plain_whole depth (Json.fits_int32 n)
  have hstat : (Document.toJson a.statUsed).Plain (depth + 1) := by
    cases a.statUsed with
    | none => exact Json.plain_null _
    | some stat => exact Json.plain_text _ _
  have hcost : (Document.toJson a.cost).Plain (depth + 1) := Json.plain_whole _ (Json.fits_int32 _)
  have hid : (Document.toJson a.id).Plain (depth + 1) := Json.plain_text _ _
  apply Json.plain_object
  · simp
  · simp [hid, hthresholds, hstat, hcost, Json.plain_ofFloat (depth + 1) h]

/-- **An ability is read back** if its cooldown is finite. -/
theorem Ability.read?_toJson (a : Ability) :
    Ability.read? a.toJson = Option.guard (fun a => a.cooldown.isFinite) a := by
  have hr : Record.ofJson? ["id", "mastery_thresholds", "stat_used", "cost", "cooldown"] a.toJson =
      some ⟨false, [("id", Document.toJson a.id), ("mastery_thresholds", Document.toJson a.thresholds),
        ("stat_used", Document.toJson a.statUsed), ("cost", Document.toJson a.cost),
        ("cooldown", .ofFloat a.cooldown)]⟩ :=
    Record.ofMembers?_of_nodup rfl (by decide)
  have hthresholds : Document.ofJson? (Document.toJson a.thresholds) = some a.thresholds :=
    mapM_map_of_read ofJson?_toJson_int32 a.thresholds
  have hstat : Document.ofJson? (Document.toJson a.statUsed) = some a.statUsed := by
    cases a.statUsed <;> rfl
  rw [Ability.read?, hr]
  simp only [Record.required, Record.withDefault, Record.get?_cons_self, Record.get?_cons_ne,
    Option.bind_eq_bind, Option.bind_some, ofJson?_toJson_id, ofJson?_toJson_int32, hthresholds, hstat,
    Json.toFloat?_ofFloat, ne_eq, String.reduceEq, not_false_eq_true]
  exact guard_bind rfl

/-! ## Derived stats -/

theorem DerivedStat.plain_toJson (d : DerivedStat) (depth : Nat) : d.toJson.Plain (depth + 3) := by
  have hmodifier (m : Modifier) : m.toJson.Plain (depth + 1) := by
    apply Json.plain_object
    · simp
    · simp [Document.toJson, Json.plain_text, Json.plain_whole, Json.fits_int32]
  have hmodifiers : (Document.toJson d.modifiers).Plain (depth + 2) := by
    apply Json.plain_array
    rw [List.forall_mem_map]
    exact fun m _ => hmodifier m
  have hid : (Document.toJson d.id).Plain (depth + 2) := Json.plain_text _ _
  apply Json.plain_object
  · simp
  · simp [hid, hmodifiers]

/-! ## Evaluations -/

namespace Evaluation

/-- The doubles in an evaluation: its value and the value of every step. -/
def numbers (e : Evaluation) : List Float :=
  e.value :: e.steps.map (·.2)

theorem plain_toJson (e : Evaluation) (h : ∀ x ∈ e.numbers, x.isFinite = true → ReadsBack x) (depth : Nat) :
    e.toJson.Plain (depth + 3) := by
  obtain ⟨hvalue, hsteps⟩ := List.forall_mem_cons.1 h
  have hstep : ∀ s ∈ e.steps, (Json.array [.text s.1, .ofFloat s.2]).Plain (depth + 1) := by
    intro s hs
    have hs := Json.plain_ofFloat depth (hsteps s.2 (List.mem_map_of_mem hs))
    apply Json.plain_array
    simp [Json.plain_text, hs]
  have hlist : (Json.array (e.steps.map fun s => .array [.text s.1, .ofFloat s.2])).Plain (depth + 2) := by
    apply Json.plain_array
    rw [List.forall_mem_map]
    exact hstep
  apply Json.plain_object
  · simp
  · simp [Json.plain_text, Json.plain_ofFloat (depth + 2) hvalue, hlist]

/-- **An evaluation is read back** if its value is finite and that of every step. -/
theorem read?_toJson (e : Evaluation) :
    read? e.toJson = Option.guard (fun e => e.numbers.all Float.isFinite) e := by
  have hr : Record.ofJson? ["formula", "value", "steps"] e.toJson =
      some ⟨false, [("formula", .text e.formula), ("value", .ofFloat e.value),
        ("steps", .array (e.steps.map fun s => .array [.text s.1, .ofFloat s.2]))]⟩ :=
    Record.ofMembers?_of_nodup rfl (by decide)
  have hstep (s : String × Float) :
      readStep? (.array [.text s.1, .ofFloat s.2]) = Option.guard (fun s => s.2.isFinite) s := by
    simp only [readStep?, Json.toText?, Json.toFloat?_ofFloat, Option.bind_eq_bind, Option.bind_some]
    exact guard_bind rfl
  have hsteps : Json.toList? readStep? (.array (e.steps.map fun s => .array [.text s.1, .ofFloat s.2])) =
      Option.guard (·.all fun s => s.2.isFinite) e.steps :=
    mapM_map_guard fun s _ => hstep s
  rw [read?, hr]
  simp only [Record.required, Record.get?_cons_self, Record.get?_cons_ne, Option.bind_eq_bind, Option.bind_some,
    Json.toText?, Json.toFloat?_ofFloat, hsteps, ne_eq, String.reduceEq, not_false_eq_true]
  refine guard_bind_two ?_
  rw [numbers, List.all_cons, List.all_map]
  rfl

end Evaluation

/-! ## Every record -/

namespace Document

/-- **Every kind of record survives being written and read**, whatever order its members and those of the tables in it
are written in: character data, characters and derived stats always, an ability if its cooldown is finite, and an
evaluation if all of its values are. -/
theorem records_roundTrip :
    RoundTrips CharacterData (fun _ => []) ∧ RoundTrips Character (fun _ => []) ∧
      RoundTrips DerivedStat (fun _ => []) ∧ RoundTrips Ability (fun a => [a.cooldown]) ∧
      RoundTrips Evaluation Evaluation.numbers := by
  refine ⟨?_, ?_, ?_, ?_, ?_⟩
  · exact roundTrips_of_read (fun d _ => d.plain_toJson 125) CharacterData.ignoresOrder CharacterData.read?_toJson
  · exact roundTrips_of_read (fun c _ => c.plain_toJson 124) Character.ignoresOrder Character.read?_toJson
  · exact roundTrips_of_read (fun d _ => d.plain_toJson 124) (DerivedStat.ignoresOrder .outer)
      (DerivedStat.read?_toJson .outer)
  · refine roundTrips_of_read (fun a h => a.plain_toJson (h _ (List.mem_singleton_self _)) 125) Ability.ignoresOrder ?_
    intro a
    refine a.read?_toJson.trans ?_
    simp
  · exact roundTrips_of_read (fun e h => e.plain_toJson h 124) Evaluation.ignoresOrder Evaluation.read?_toJson

/-- An ability without thresholds that no stat pays for. -/
def whirlwind : Ability := ⟨⟨"whirlwind"⟩, [], none, 3, 1.5⟩

/-- What is written for it, from the last member to the first. -/
def whirlwindReversed : Json :=
  .object [("cooldown", .ofFloat 1.5), ("cost", .whole 3), ("stat_used", .null), ("mastery_thresholds", .array []),
    ("id", .text "whirlwind")]

/-- An evaluation of which one step went beyond all doubles. -/
def overflown : Evaluation := ⟨"damage", 2, [("1 / 0", 1 / 0), ("2", 2)]⟩

theorem records_roundTrip_whirlwind :
    Document.parse (whirlwindReversed.render .indented) = .ok whirlwind ∧
      (Document.parse (text overflown) : Except FormulaError Evaluation) = .error .malformed := by
  obtain ⟨-, -, -, habilities, hevaluations⟩ := records_roundTrip
  constructor
  · have hnumbers : ∀ x ∈ [whirlwind.cooldown], x.isFinite = true → ReadsBack x := by decide +kernel
    obtain ⟨hdistinct, hread⟩ := habilities whirlwind hnumbers
    have hreversed : Shuffled (toJson whirlwind) whirlwindReversed :=
      Json.shuffled_of_perm hdistinct (List.reverse_perm _).symm
    exact (hread .indented whirlwindReversed hreversed).1.2 (by decide +kernel)
  · have hnumbers : ∀ x ∈ overflown.numbers, x.isFinite = true → ReadsBack x := by decide +kernel
    obtain ⟨hdistinct, hread⟩ := hevaluations overflown hnumbers
    exact (hread .compact (toJson overflown) hdistinct.shuffled).2
      ⟨1 / 0, by simp [Evaluation.numbers, overflown], by decide +kernel⟩

end Document

end Formulary
