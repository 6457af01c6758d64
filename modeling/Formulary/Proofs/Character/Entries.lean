import Formulary.Document.Character
import Formulary.Proofs.Document.Senses
import Formulary.Proofs.Table

/-!
# Three ways to character data

Character data can be set entry by entry, read from a document that lists the entries, or built from lists in which no
stat may be named twice. All three fold a table (`ofLists_eq`, `read?_of_lists`, `addEntries_of_nodup`), and so they
agree where they should: `ofLists_agrees`.
-/

namespace Formulary.CharacterData

open Json (given)

/-! ## Setting entries -/

theorem foldl_withCoreStat (d : CharacterData) (entries : List (StatId × Int32)) :
    entries.foldl (fun d x => d.withCoreStat x.1 x.2) d =
      { d with coreStats := entries.foldl (fun t x => t.insert x.1 x.2) d.coreStats } := by
  induction entries generalizing d with
  | nil => rfl
  | cons x rest ih => exact ih (d.withCoreStat x.1 x.2)

theorem foldl_withAdjustment (d : CharacterData) (entries : List (DerivedStatId × Int32)) :
    entries.foldl (fun d x => d.withAdjustment x.1 x.2) d =
      { d with adjustments := entries.foldl (fun t x => t.insert x.1 x.2) d.adjustments } := by
  induction entries generalizing d with
  | nil => rfl
  | cons x rest ih => exact ih (d.withAdjustment x.1 x.2)

/-- Data that was set entry by entry has the tables that the lists describe. -/
theorem ofLists_eq (id : String) (coreStats : List (StatId × Int32)) (adjustments : List (DerivedStatId × Int32)) :
    ofLists id coreStats adjustments = ⟨id, .ofList coreStats, .ofList adjustments⟩ := by
  rw [ofLists, foldl_withCoreStat, foldl_withAdjustment]
  rfl

/-! ## Documents -/

section
variable {id : String} {coreStats : List (StatId × Int32)} {adjustments : List (DerivedStatId × Int32)}

def entriesJson {k : IdKind} (entries : List (Id k × Int32)) : Json :=
  .object (entries.map fun x => (x.1.name, Document.toJson x.2))

theorem ofJson?_entriesJson {k : IdKind} (entries : List (Id k × Int32)) :
    (Document.ofJson? (entriesJson entries) : Option (Table (Id k) Int32)) = some (.ofList entries) :=
  ofJson?_entries ofJson?_toJson_int32 entries

/-- Whether a value is a document of character data that lists the given entries in this order: an object that gives
each of the three parts once, among any other members and in any place, or the array of the parts. -/
inductive Lists : Json → String → List (StatId × Int32) → List (DerivedStatId × Int32) → Prop where
  | object {members : List (String × Json)} {id : String} {coreStats : List (StatId × Int32)}
    {adjustments : List (DerivedStatId × Int32)} :
    given members "id" = [.text id] → given members "core_stats" = [entriesJson coreStats] →
      given members "derived_adjustments" = [entriesJson adjustments] →
        Lists (.object members) id coreStats adjustments
  | array {id : String} {coreStats : List (StatId × Int32)} {adjustments : List (DerivedStatId × Int32)} :
    Lists (.array [.text id, entriesJson coreStats, entriesJson adjustments]) id coreStats adjustments

/-- The data that is read from lists of entries is the data that is set by them. -/
theorem read?_of_lists {j : Json} (h : Lists j id coreStats adjustments) :
    read? j = some (ofLists id coreStats adjustments) := by
  cases h with
  | @object members _ _ _ hid hcore hadjustments =>
    have hr : Record.ofJson? ["id", "core_stats", "derived_adjustments"] (.object members) = some ⟨false, members⟩ := by
      rw [Record.ofJson?, Record.ofMembers?_eq_given, if_pos]
      simp [hid, hcore, hadjustments]
    rw [read?, hr]
    simp [Record.required, Record.withDefault, Record.get?_eq_given, hid, hcore, hadjustments, Json.toText?,
      ofJson?_entriesJson, ofLists_eq]
  | array =>
    simp [read?, Record.ofJson?, Record.ofItems?, Record.required, Record.withDefault, Record.get?, Json.toText?,
      ofJson?_entriesJson, ofLists_eq]

def listing (id : String) (coreStats : List (StatId × Int32)) (adjustments : List (DerivedStatId × Int32)) : Json :=
  .object [("id", .text id), ("core_stats", entriesJson coreStats), ("derived_adjustments", entriesJson adjustments)]

theorem restorable_entriesJson {k : IdKind} (entries : List (Id k × Int32)) : (entriesJson entries).Restorable := by
  rw [entriesJson, Json.Restorable]
  induction entries with
  | nil => simp [Json.RestorableMembers]
  | cons x rest ih => simpa [Json.RestorableMembers, Document.toJson, Json.Restorable, Json.fits_int32] using ih

theorem nesting_entriesJson {k : IdKind} (entries : List (Id k × Int32)) : Json.nesting (entriesJson entries) = 1 := by
  have hmembers : Json.nestingMembers (entries.map fun x => (x.1.name, Document.toJson x.2)) ≤ 0 := by
    rw [Json.nestingMembers_le_iff, List.forall_mem_map]
    intro x _
    exact Nat.le_refl 0
  rw [entriesJson, Json.nesting]
  omega

theorem parse?_listing (layout : Json.Layout) (id : String) (coreStats : List (StatId × Int32))
    (adjustments : List (DerivedStatId × Int32)) :
    Json.parse? ((listing id coreStats adjustments).render layout) = some (listing id coreStats adjustments) := by
  refine Json.parse?_render layout ?_ ?_
  · simp [listing, Json.Restorable, Json.RestorableMembers, restorable_entriesJson]
  · simp [listing, Json.nesting, Json.nestingMembers, nesting_entriesJson, Json.deepest]

theorem parse_eq_ok_of_read? {s : String} {j : Json} {d : CharacterData} (hs : Json.parse? s = some j)
    (h : read? j = some d) : (Document.parse s : Except FormulaError CharacterData) = .ok d := by
  have hread : (Json.parse? s).bind (Document.ofJson? : Json → Option CharacterData) = some d := by
    rw [hs]
    exact h
  rw [Document.parse, hread]

end

/-! ## Entries that may not repeat -/

theorem addEntries_append {k : IdKind} (t : Table (Id k) Int32) (before after : List (Id k × Int32)) :
    addEntries t (before ++ after) = addEntries t before >>= fun u => addEntries u after := by
  induction before generalizing t with
  | nil => rfl
  | cons x rest ih =>
    rw [List.cons_append, addEntries, addEntries]
    split
    · rfl
    · exact ih _

/-- Entries for distinct stats that are new to a table are all added. -/
theorem addEntries_of_new {k : IdKind} {t : Table (Id k) Int32} {entries : List (Id k × Int32)}
    (h : (entries.map (·.1)).Nodup) (hnew : ∀ x ∈ entries, t.contains x.1 = false) :
    addEntries t entries = .ok (entries.foldl (fun t x => t.insert x.1 x.2) t) := by
  induction entries generalizing t with
  | nil => rfl
  | cons x rest ih =>
    obtain ⟨hx, hrest⟩ := List.nodup_cons.1 h
    have hfresh : ¬ t.contains x.1 = true := by simp [hnew x List.mem_cons_self]
    rw [addEntries, if_neg hfresh]
    apply ih hrest
    intro y hy
    have hne : y.1 ≠ x.1 := fun heq => hx (List.mem_map.2 ⟨y, hy, heq⟩)
    rw [Table.contains_insert, hnew y (List.mem_cons_of_mem x hy), Bool.or_false, decide_eq_false hne]

theorem addEntries_of_nodup {k : IdKind} {entries : List (Id k × Int32)} (h : (entries.map (·.1)).Nodup) :
    addEntries ∅ entries = .ok (.ofList entries) :=
  addEntries_of_new h fun _ _ => rfl

/-- Whether a stat is the first one in a list of entries that was there before. -/
def FirstRepeated {k : IdKind} (entries : List (Id k × Int32)) (stat : Id k) : Prop :=
  ∃ before value after, entries = before ++ (stat, value) :: after ∧ (before.map (·.1)).Nodup ∧
    stat ∈ before.map (·.1)

theorem exists_firstRepeated {k : IdKind} {entries : List (Id k × Int32)} (h : ¬ (entries.map (·.1)).Nodup) :
    ∃ stat, FirstRepeated entries stat := by
  obtain ⟨before, ⟨stat, value⟩, after, heq, hbefore, hstat⟩ := exists_first_repetition h
  exact ⟨stat, before, value, after, heq, hbefore, hstat⟩

/-- Entries that repeat a stat are refused for the first stat that was there before. -/
theorem addEntries_of_firstRepeated {k : IdKind} {entries : List (Id k × Int32)} {stat : Id k}
    (h : FirstRepeated entries stat) : addEntries ∅ entries = .error (.duplicateStat stat.name) := by
  obtain ⟨before, value, after, rfl, hbefore, hstat⟩ := h
  rw [addEntries_append, addEntries_of_nodup hbefore]
  show addEntries (.ofList before) ((stat, value) :: after) = _
  rw [addEntries, if_pos (Table.contains_ofList.2 hstat)]

section
variable {id : String} {coreStats : List (StatId × Int32)} {adjustments : List (DerivedStatId × Int32)}

theorem ofEntries_of_nodup (hcore : (coreStats.map (·.1)).Nodup) (hadjustments : (adjustments.map (·.1)).Nodup) :
    ofEntries id coreStats adjustments = .ok (ofLists id coreStats adjustments) := by
  rw [ofEntries, addEntries_of_nodup hcore, addEntries_of_nodup hadjustments, ofLists_eq]
  rfl

theorem ofEntries_of_core {stat : StatId} (h : FirstRepeated coreStats stat) :
    ofEntries id coreStats adjustments = .error (.duplicateStat stat.name) := by
  rw [ofEntries, addEntries_of_firstRepeated h]
  rfl

theorem ofEntries_of_adjustment (hcore : (coreStats.map (·.1)).Nodup) {stat : DerivedStatId}
    (h : FirstRepeated adjustments stat) :
    ofEntries id coreStats adjustments = .error (.duplicateStat stat.name) := by
  rw [ofEntries, addEntries_of_nodup hcore, addEntries_of_firstRepeated h]
  rfl

theorem ofEntries_eq_ok_iff :
    (∃ d, ofEntries id coreStats adjustments = .ok d) ↔
      (coreStats.map (·.1)).Nodup ∧ (adjustments.map (·.1)).Nodup := by
  constructor
  · rintro ⟨d, hd⟩
    by_cases hcore : (coreStats.map (·.1)).Nodup
    · by_cases hadjustments : (adjustments.map (·.1)).Nodup
      · exact ⟨hcore, hadjustments⟩
      · obtain ⟨stat, hstat⟩ := exists_firstRepeated hadjustments
        simp [ofEntries_of_adjustment hcore hstat] at hd
    · obtain ⟨stat, hstat⟩ := exists_firstRepeated hcore
      simp [ofEntries_of_core hstat] at hd
  · rintro ⟨hcore, hadjustments⟩
    exact ⟨_, ofEntries_of_nodup hcore hadjustments⟩

end

/-! ## Agreement -/

/-- **Three ways to character data agree exactly where they should.** For any lists of entries, of which those for one
stat may be many: setting them one after the other and reading a document that lists them give the same data, in which
the last entry for a stat counts, and such a document never fails. Building from the lists succeeds exactly if neither
names a stat twice, gives that same data, and gives it for the entries in any order. Otherwise the first stat is named
that was there before, among the core stats if there is one and else among the adjustments. -/
theorem ofLists_agrees (id : String) (coreStats : List (StatId × Int32)) (adjustments : List (DerivedStatId × Int32)) :
    let data := ofLists id coreStats adjustments
    (data.id = id ∧ (∀ stat, data.coreStat? stat = Table.find? stat coreStats.reverse) ∧
      ∀ stat, data.adjustments.get? stat = Table.find? stat adjustments.reverse) ∧
    ((∀ s j, Json.parse? s = some j → Lists j id coreStats adjustments → Document.parse s = .ok data) ∧
      ∀ layout, Document.parse ((listing id coreStats adjustments).render layout) = .ok data) ∧
    ((∃ d, ofEntries id coreStats adjustments = .ok d) ↔
      (coreStats.map (·.1)).Nodup ∧ (adjustments.map (·.1)).Nodup) ∧
    (∀ d, ofEntries id coreStats adjustments = .ok d → d = data ∧
      ∀ coreStats' adjustments', coreStats'.Perm coreStats → adjustments'.Perm adjustments →
        ofEntries id coreStats' adjustments' = .ok data) ∧
    (¬ (coreStats.map (·.1)).Nodup → (∃ stat, FirstRepeated coreStats stat) ∧ ∀ stat, FirstRepeated coreStats stat →
      ofEntries id coreStats adjustments = .error (.duplicateStat stat.name)) ∧
    ((coreStats.map (·.1)).Nodup → ¬ (adjustments.map (·.1)).Nodup → (∃ stat, FirstRepeated adjustments stat) ∧
      ∀ stat, FirstRepeated adjustments stat →
        ofEntries id coreStats adjustments = .error (.duplicateStat stat.name)) := by
  intro data
  have hdata : data = ⟨id, .ofList coreStats, .ofList adjustments⟩ := ofLists_eq id coreStats adjustments
  refine ⟨?_, ?_, ofEntries_eq_ok_iff, ?_, ?_, ?_⟩
  · rw [hdata]
    exact ⟨rfl, Table.get?_ofList coreStats, Table.get?_ofList adjustments⟩
  · constructor
    · intro s j hj hlists
      exact parse_eq_ok_of_read? hj (read?_of_lists hlists)
    · intro layout
      exact parse_eq_ok_of_read? (parse?_listing layout ..) (read?_of_lists (.object rfl rfl rfl))
  · intro d hd
    obtain ⟨hcore, hadjustments⟩ := ofEntries_eq_ok_iff.1 ⟨d, hd⟩
    have hsame : ofEntries id coreStats adjustments = .ok data := ofEntries_of_nodup hcore hadjustments
    refine ⟨Except.ok.inj (hd.symm.trans hsame), ?_⟩
    intro coreStats' adjustments' hperm hperm'
    have hcore' : (coreStats'.map (·.1)).Nodup := (hperm.map _).nodup_iff.2 hcore
    have hadjustments' : (adjustments'.map (·.1)).Nodup := (hperm'.map _).nodup_iff.2 hadjustments
    rw [ofEntries_of_nodup hcore' hadjustments', hdata, ofLists_eq, Table.ofList_perm hperm hcore',
      Table.ofList_perm hperm' hadjustments']
  · intro hcore
    exact ⟨exists_firstRepeated hcore, fun stat hstat => ofEntries_of_core hstat⟩
  · intro hcore hadjustments
    exact ⟨exists_firstRepeated hadjustments, fun stat hstat => ofEntries_of_adjustment hcore hstat⟩

/-- Core stats of which one is listed twice. -/
def strengthTwice : List (StatId × Int32) := [(⟨"STR"⟩, 5), (⟨"HP"⟩, 1), (⟨"STR"⟩, 7)]

def strengthOnce : List (StatId × Int32) := [(⟨"STR"⟩, 5), (⟨"HP"⟩, 1)]

/-- Adjustments of which one is listed twice, under the name of a core stat. -/
def healthTwice : List (DerivedStatId × Int32) := [(⟨"HP"⟩, 3), (⟨"HP"⟩, 4)]

/-- A document that lists such entries by their places only. -/
def heroParts : Json := .array [.text "hero", entriesJson strengthTwice, entriesJson healthTwice]

theorem ofLists_agrees_hero :
    Document.parse (heroParts.render .compact) = .ok (ofLists "hero" strengthTwice healthTwice) ∧
      (ofLists "hero" strengthTwice healthTwice).coreStat? ⟨"STR"⟩ = some 7 ∧
      ofEntries "hero" strengthTwice healthTwice = .error (.duplicateStat "STR") ∧
      ofEntries "hero" strengthOnce healthTwice = .error (.duplicateStat "HP") ∧
      ofEntries "hero" strengthOnce.reverse [(⟨"HP"⟩, 3)] = .ok (ofLists "hero" strengthOnce [(⟨"HP"⟩, 3)]) := by
  have hparts : Json.parse? (heroParts.render .compact) = some heroParts := by
    refine Json.parse?_render .compact ?_ (by decide)
    simp [heroParts, Json.Restorable, Json.RestorableItems, restorable_entriesJson]
  have hstrength : FirstRepeated strengthTwice ⟨"STR"⟩ := ⟨strengthOnce, 7, [], rfl, by decide, by decide⟩
  have hhealth : FirstRepeated healthTwice ⟨"HP"⟩ := ⟨[(⟨"HP"⟩, 3)], 4, [], rfl, by decide, by decide⟩
  obtain ⟨⟨-, hcore, -⟩, ⟨hread, -⟩, -, -, hrepeated, -⟩ := ofLists_agrees "hero" strengthTwice healthTwice
  obtain ⟨-, -, -, -, -, hadjustment⟩ := ofLists_agrees "hero" strengthOnce healthTwice
  obtain ⟨-, -, hok, hsame, -⟩ := ofLists_agrees "hero" strengthOnce [(⟨"HP"⟩, 3)]
  obtain ⟨d, hd⟩ := hok.2 (by decide)
  refine ⟨hread _ _ hparts .array, hcore ⟨"STR"⟩, (hrepeated (by decide)).2 _ hstrength,
    (hadjustment (by decide) (by decide)).2 _ hhealth, ?_⟩
  exact (hsame d hd).2 _ _ strengthOnce.reverse_perm (.refl _)

end Formulary.CharacterData
