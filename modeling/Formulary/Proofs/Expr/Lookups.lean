import Formulary.Proofs.Expr.Value

/-!
# What a tree reads of its context

A tree reads its context in its leaves only. Contexts that answer their look-ups alike cannot be told apart by it
(`evaluate_congr_of_agree`); `Unread` says what is free to change.
-/

namespace Formulary

/-! ## Look-ups -/

inductive Lookup where
  | coreStat (stat : StatId)
  | derivedStat (stat : DerivedStat)
  | mastery

def Lookup.stats : Lookup → List StatId
  | .coreStat stat => [stat]
  | .derivedStat stat => stat.modifiers.map Modifier.stat
  | .mastery => []

/-- The derived stat of which a look-up names the adjustment. -/
def Lookup.adjusted? : Lookup → Option DerivedStatId
  | .derivedStat stat => some stat.id
  | _ => none

namespace Expr

mutual

/-- The look-ups in a tree, in reading order. -/
def lookups : Expr → List Lookup
  | .chain _ xs | .extremum _ xs => slotsLookups xs
  | .power a b | .logarithmic a b => slotLookups a ++ slotLookups b
  | .exponential a => slotLookups a
  | .clamp a b c => slotLookups a ++ (slotLookups b ++ slotLookups c)
  | .coreStat stat => [.coreStat stat]
  | .derivedStat stat => [.derivedStat stat]
  | .mastery => [.mastery]
  | .constant _ | .euler => []

def slotLookups : Option Expr → List Lookup
  | none => []
  | some e => lookups e

def slotsLookups : List (Option Expr) → List Lookup
  | [] => []
  | x :: xs => slotLookups x ++ slotsLookups xs

end

end Expr

/-! ## Contexts that answer alike -/

/-- What is said of a core stat, zero if nothing is. -/
def readStat (stats : CoreStats) (stat : StatId) : Int32 :=
  (stats.coreStat? stat).getD 0

namespace Context

/-- The core stats that a context shows: those of the character, or of the character data if there is none. -/
def shown (ctx : Context) : CoreStats :=
  match ctx.character, ctx.characterData with
  | some c, _ => c.toCoreStats
  | none, some d => d
  | none, none => ⟨fun _ => none⟩

theorem coreStat?_eq (ctx : Context) (stat : StatId) : ctx.coreStat? stat = ctx.shown.coreStat? stat := by
  unfold coreStat? shown
  cases ctx.character with
  | some c => rfl
  | none => cases ctx.characterData <;> rfl

/-- Whether two contexts answer a look-up alike. For a derived stat they need not have the same character, or none
both: two characters will do that share the core stats of the modifiers and the adjustment. -/
def Agree (ctx ctx' : Context) : Lookup → Prop
  | .coreStat stat => readStat ctx.shown stat = readStat ctx'.shown stat
  | .derivedStat stat => ctx.character = ctx'.character ∨
      ∃ c c' : Character, ctx.character = some c.sheet ∧ ctx'.character = some c'.sheet ∧
        (∀ m ∈ stat.modifiers, readStat c.data.toCoreStats m.stat = readStat c'.data.toCoreStats m.stat) ∧
        c.data.adjustment stat.id = c'.data.adjustment stat.id
  | .mastery => ctx.mastery = ctx'.mastery

theorem agree_refl (ctx : Context) (l : Lookup) : ctx.Agree ctx l := by
  cases l with
  | derivedStat stat => exact .inl rfl
  | coreStat stat | mastery => rfl

end Context

theorem applyAll_congr {f g : StatId → Option Int32} {modifiers : List Modifier}
    (h : ∀ m ∈ modifiers, (f m.stat).getD 0 = (g m.stat).getD 0) (value : Float) :
    Modifier.applyAll f value modifiers = Modifier.applyAll g value modifiers := by
  induction modifiers generalizing value with
  | nil => rfl
  | cons m rest ih =>
    obtain ⟨hm, hrest⟩ := List.forall_mem_cons.1 h
    have hterm : m.term f = m.term g := by rw [Modifier.term, Modifier.term, hm]
    rw [Modifier.applyAll, Modifier.applyAll, hterm]
    cases m.op.apply? value (m.term g) with
    | some value => exact ih hrest value
    | none => rfl

/-- A derived stat reads of a character the core stats of its modifiers and its own adjustment. -/
theorem derivedStat_congr {ctx ctx' : Context} {stat : DerivedStat} (h : ctx.Agree ctx' (.derivedStat stat)) :
    ctx.derivedStat stat = ctx'.derivedStat stat := by
  rw [Context.derivedStat, Context.derivedStat]
  rcases h with h | ⟨c, c', hc, hc', hstats, hadjustment⟩
  · rw [h]
  · have hvalue : stat.evaluate c.data.coreStat? = stat.evaluate c'.data.coreStat? := by
      rw [DerivedStat.evaluate, DerivedStat.evaluate,
        applyAll_congr (f := c.data.coreStat?) (g := c'.data.coreStat?) hstats]
    rw [hc, hc']
    dsimp only
    rw [c.derivedStat_sheet, c'.derivedStat_sheet, Character.derivedStat, Character.derivedStat, hvalue, hadjustment]

namespace Expr

section
variable {ctx ctx' : Context}

mutual

/-- **A tree evaluates alike** in contexts that answer its look-ups alike. -/
theorem evaluate_of_agree : ∀ e : Expr, (∀ l ∈ e.lookups, ctx.Agree ctx' l) → evaluate ctx e = evaluate ctx' e
  | .constant x, _ => rfl
  | .euler, _ => rfl
  | .coreStat stat, h => by
    have hstat : readStat ctx.shown stat = readStat ctx'.shown stat := h _ (List.mem_singleton_self _)
    rw [readStat, readStat, ← Context.coreStat?_eq, ← Context.coreStat?_eq] at hstat
    rw [evaluate_coreStat, evaluate_coreStat, hstat]
  | .derivedStat stat, h => by
    rw [evaluate_derivedStat, evaluate_derivedStat]
    exact derivedStat_congr (h _ (List.mem_singleton_self _))
  | .mastery, h => by
    have hmastery : ctx.mastery = ctx'.mastery := h _ (List.mem_singleton_self _)
    rw [evaluate_mastery, evaluate_mastery, hmastery]
  | .chain op xs, h => by
    rw [evaluate, evaluate, attempt, attempt, operands_of_agree xs h]
  | .extremum side xs, h => by
    rw [evaluate, evaluate, attempt, attempt, operands_of_agree xs h]
  | .exponential a, h => by
    rw [evaluate, evaluate, attempt, attempt, operand_of_agree a h]
  | .power a b, h => by
    obtain ⟨ha, hb⟩ := List.forall_mem_append.1 h
    rw [evaluate, evaluate, attempt, attempt, operand_of_agree a ha, operand_of_agree b hb]
  | .logarithmic a b, h => by
    obtain ⟨ha, hb⟩ := List.forall_mem_append.1 h
    rw [evaluate, evaluate, attempt, attempt, operand_of_agree a ha, operand_of_agree b hb]
  | .clamp a b c, h => by
    obtain ⟨ha, h⟩ := List.forall_mem_append.1 h
    obtain ⟨hb, hc⟩ := List.forall_mem_append.1 h
    rw [evaluate, evaluate, attempt, attempt, operand_of_agree a ha, operand_of_agree b hb, operand_of_agree c hc]

theorem operand_of_agree : ∀ x : Option Expr, (∀ l ∈ slotLookups x, ctx.Agree ctx' l) →
    operand ctx x = operand ctx' x
  | none, _ => rfl
  | some e, h => congrArg some (evaluate_of_agree e h)

theorem operands_of_agree : ∀ xs : List (Option Expr), (∀ l ∈ slotsLookups xs, ctx.Agree ctx' l) →
    operands ctx xs = operands ctx' xs
  | [], _ => rfl
  | x :: xs, h => by
    obtain ⟨hx, hxs⟩ := List.forall_mem_append.1 h
    rw [operands, operands, operand_of_agree x hx, operands_of_agree xs hxs]

end

end

/-! ## What can change unseen -/

/-- The changes of a context that a tree does not see. -/
inductive Unread (e : Expr) : Context → Context → Prop where
  /-- Other extra values. -/
  | extras (ctx : Context) (extras : Table String Json) : Unread e ctx { ctx with extras }
  /-- Other character data, or none, beside a character, whatever that character lacks. -/
  | shadowed (ctx : Context) (d : Option CoreStats) :
    ctx.character.isSome → Unread e ctx { ctx with characterData := d }
  /-- A character that differs in what the tree and the ability do not name. -/
  | character (ctx : Context) (c c' : Character) :
    ctx.character = some c.sheet →
    (∀ l ∈ e.lookups, ∀ stat ∈ l.stats, c'.data.coreStats.get? stat = c.data.coreStats.get? stat) →
    (∀ l ∈ e.lookups, ∀ id ∈ l.adjusted?, c'.data.adjustments.get? id = c.data.adjustments.get? id) →
    (∀ a ∈ ctx.ability, c'.abilities.get? a.id = c.abilities.get? a.id) →
    Unread e ctx { ctx with character := some c'.sheet }
  /-- Character data, shown for want of a character, that differs in the stats that the tree does not name. -/
  | characterData (ctx : Context) (d d' : CoreStats) :
    ctx.character = none → ctx.characterData = some d →
    (∀ l ∈ e.lookups, ∀ stat ∈ l.stats, d'.coreStat? stat = d.coreStat? stat) →
    Unread e ctx { ctx with characterData := some d' }
  /-- An ability that differs in anything but its name and its thresholds. -/
  | ability (ctx : Context) (a a' : Ability) :
    ctx.ability = some a → a'.id = a.id → a'.thresholds = a.thresholds →
    Unread e ctx { ctx with ability := some a' }

/-- A change that a tree does not see leaves the answers to its look-ups as they are. -/
theorem Unread.agree {e : Expr} {ctx ctx' : Context} (h : Unread e ctx ctx') :
    ∀ l ∈ e.lookups, ctx'.Agree ctx l := by
  intro l hl
  cases h with
  | extras => exact ctx.agree_refl l
  | shadowed d hc =>
    obtain ⟨c, hc⟩ := Option.isSome_iff_exists.1 hc
    cases l with
    | coreStat stat => simp only [Context.Agree, Context.shown, hc]
    | derivedStat stat => exact ctx.agree_refl (.derivedStat stat)
    | mastery => rfl
  | character c c' hc hstats hadjusted hmastery =>
    cases l with
    | coreStat stat =>
      have hstat := hstats _ hl stat (List.mem_singleton_self _)
      simp only [Context.Agree, Context.shown, hc, readStat, Character.coreStat?_sheet, hstat]
    | derivedStat stat =>
      refine .inr ⟨c', c, rfl, hc, fun m hm => ?_, ?_⟩
      · exact congrArg (Option.getD · 0) (hstats _ hl m.stat (List.mem_map_of_mem hm))
      · rw [CharacterData.adjustment, CharacterData.adjustment, hadjusted _ hl stat.id rfl]
    | mastery =>
      simp only [Context.Agree, Context.mastery, hc]
      cases ha : ctx.ability with
      | none => rfl
      | some a => simp only [Character.mastery?_sheet, Character.mastery?, hmastery a ha]
  | characterData d d' hc hd hstats =>
    cases l with
    | coreStat stat =>
      have hstat := hstats _ hl stat (List.mem_singleton_self _)
      simp only [Context.Agree, Context.shown, hc, hd, readStat, hstat]
    | derivedStat stat => exact ctx.agree_refl (.derivedStat stat)
    | mastery => rfl
  | ability a a' ha hid hthresholds =>
    cases l with
    | coreStat stat => rfl
    | derivedStat stat => exact ctx.agree_refl (.derivedStat stat)
    | mastery =>
      simp only [Context.Agree, Context.mastery, ha]
      cases ctx.character with
      | none => rfl
      | some c => simp only [Ability.threshold?, hid, hthresholds]

/-- **An evaluation depends on the context only through what the tree names.** Contexts that answer the look-ups of
a tree alike give it the same value and the same events in the same order. Extra values, all other stats, adjustments
and abilities, what an ability costs and the character data beside a character are not among what is looked up. -/
theorem evaluate_congr_of_agree (e : Expr) :
    (∀ ctx ctx' : Context, (∀ l ∈ e.lookups, ctx.Agree ctx' l) → evaluate ctx e = evaluate ctx' e) ∧
      ∀ ctx ctx' : Context, Unread e ctx ctx' → evaluate ctx' e = evaluate ctx e :=
  ⟨fun _ _ h => evaluate_of_agree e h, fun _ _ h => evaluate_of_agree e h.agree⟩

/-- A sum that looks up the strength of a hero, the health that comes of it, and the mastery of a skill. -/
def strengthSum : Expr :=
  .chain .addition [some (.coreStat ⟨"STR"⟩), some (.derivedStat ⟨⟨"HP"⟩, [⟨⟨"STR"⟩, 2, .addition⟩]⟩), some .mastery]

/-- A hero of strength seven with some luck, who has learnt to slash. -/
def lucky (luck : Int32) : Character :=
  { data := .ofLists "hero" [(⟨"STR"⟩, 7), (⟨"LUCK"⟩, luck)] [(⟨"HP"⟩, 5)]
    abilities := .ofList [(⟨"slash"⟩, 1)] }

def slash (cost : Int32) : Ability :=
  { id := ⟨"slash"⟩, thresholds := [1, 4], cost }

def fight (luck cost : Int32) : Context :=
  { character := some (lucky luck).sheet, ability := some (slash cost) }

/-- Luck and the cost of the slash are nothing to the sum, nor are the data of somebody else. -/
theorem evaluate_strengthSum_fight :
    evaluate (fight 1 0) strengthSum = evaluate (fight 2 3) strengthSum ∧
      evaluate { fight 1 0 with characterData := some (CharacterData.toCoreStats ⟨"rat", ∅, ∅⟩) } strengthSum =
        evaluate (fight 1 0) strengthSum ∧
      (evaluate (fight 1 0) strengthSum).value = 30 := by
  refine ⟨(evaluate_congr_of_agree strengthSum).1 _ _ fun l hl => ?_,
    (evaluate_congr_of_agree strengthSum).2 _ _ (.shadowed (fight 1 0) _ rfl), by decide +kernel⟩
  have hl : l ∈ [Lookup.coreStat ⟨"STR"⟩, .derivedStat ⟨⟨"HP"⟩, [⟨⟨"STR"⟩, 2, .addition⟩]⟩, .mastery] := hl
  rcases List.mem_cons.1 hl with rfl | hl
  · exact (by decide : readStat (fight 1 0).shown ⟨"STR"⟩ = readStat (fight 2 3).shown ⟨"STR"⟩)
  rcases List.mem_cons.1 hl with rfl | hl
  · refine .inr ⟨lucky 1, lucky 2, rfl, rfl, List.forall_mem_singleton.2 ?_, ?_⟩
    · decide
    · decide
  obtain rfl := List.mem_singleton.1 hl
  rfl

end Expr

end Formulary
