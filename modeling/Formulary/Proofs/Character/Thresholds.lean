import Formulary.Expr.Value
import Formulary.Proofs.Character.Mastery
import Formulary.Proofs.Decimal.Whole

/-!
# Thresholds along a history

A look-up of mastery reads the threshold table of an ability at the level that the character has in it. The level
counts the level-ups that went well (`toNat_level_after`), so the history alone tells which entry is looked up
(`mastery_along_history`).
-/

namespace Formulary

/-! ## The table of an ability -/

namespace Ability

theorem threshold?_eq_none_iff {a : Ability} {level : UInt32} : a.threshold? level = none ↔ a.thresholds = [] := by
  rw [threshold?, List.getElem?_eq_none_iff, ← List.length_eq_zero_iff]
  omega

/-- The entry that is read at a level is always there, unless the table is empty. -/
theorem threshold?_eq_some {a : Ability} (h : a.thresholds ≠ []) (level : UInt32) :
    ∃ hlt : min level.toNat (a.thresholds.length - 1) < a.thresholds.length,
      a.threshold? level = some a.thresholds[min level.toNat (a.thresholds.length - 1)] := by
  have hpos : 0 < a.thresholds.length := List.length_pos_iff.2 h
  have hlt : min level.toNat (a.thresholds.length - 1) < a.thresholds.length := by omega
  exact ⟨hlt, List.getElem?_eq_getElem hlt⟩

end Ability

/-- Further down an ascending list stand no smaller entries. -/
theorem getElem_le_of_pairwise {xs : List Int32} (h : xs.Pairwise (· ≤ ·)) {i j : Nat} (hij : i ≤ j)
    (hj : j < xs.length) : xs[i] ≤ xs[j] := by
  rcases Nat.lt_or_eq_of_le hij with hlt | rfl
  · exact List.pairwise_iff_getElem.1 h i j (by omega) hj hlt
  · exact Int32.le_refl _

namespace Character

/-! ## Levels -/

/-- The level at which look-ups see an ability: zero before it is unlocked. -/
def level (c : Character) (a : AbilityId) : UInt32 :=
  (c.mastery? a).getD 0

/-- Whether a step is a level-up of an ability, and one that goes well. -/
def levelsUp (c : Character) (t : Training) (a : AbilityId) : Bool :=
  t = .levelUp a ∧ (c.levelUp a).value.1.isOk = true

/-- How many level-ups of an ability go well while a character goes through a history. -/
def levelUps (a : AbilityId) : Character → List Training → Nat
  | _, [] => 0
  | c, t :: rest => (c.levelsUp t a).toNat + levelUps a (c.train t) rest

theorem levelsUp_eq_true {c : Character} {t : Training} {a : AbilityId} :
    c.levelsUp t a = true ↔ t = .levelUp a ∧ (c.mastery? a).isSome = true := by
  rw [levelsUp, decide_eq_true_iff]
  cases h : c.mastery? a with
  | none => simp [levelUp_of_none h, Except.isOk, Except.toBool]
  | some level => simp [levelUp_of_some h, Except.isOk, Except.toBool]

/-- **What a step does to a level**: it rises by one if the step is a level-up that goes well, as far as there are
levels. -/
theorem toNat_level_train (c : Character) (t : Training) (a : AbilityId) :
    ((c.train t).level a).toNat = min ((c.level a).toNat + (c.levelsUp t a).toNat) Training.lastLevel := by
  have hstep := c.mastery?_train t a
  have hlevel (d : Character) : (d.level a).toNat = ((d.mastery? a).map UInt32.toNat).getD 0 := by
    rw [level]
    cases d.mastery? a <;> rfl
  rw [hlevel, hlevel, hstep]
  cases h : c.mastery? a with
  | none =>
    have hfails : c.levelsUp t a = false := by simp [← Bool.not_eq_true, levelsUp_eq_true, h]
    rw [hfails]
    by_cases hadd : t = .add a <;> simp [Training.advance, hadd]
  | some level =>
    have hlast : level.toNat ≤ Training.lastLevel := Nat.le_of_lt_succ level.toNat_lt
    by_cases hup : t = .levelUp a
    · have hrises : c.levelsUp t a = true := levelsUp_eq_true.2 ⟨hup, by rw [h]; rfl⟩
      simp [Training.advance, hup, hup ▸ hrises]
    · have hstays : c.levelsUp t a = false := by simp [← Bool.not_eq_true, levelsUp_eq_true, hup]
      rw [hstays]
      simp [Training.advance, hup]
      omega

/-- **Levels count the level-ups that went well**, from the level that the character began with. -/
theorem toNat_level_after (c : Character) (history : List Training) (a : AbilityId) :
    ((c.after history).level a).toNat = min ((c.level a).toNat + levelUps a c history) Training.lastLevel := by
  induction history generalizing c with
  | nil =>
    have hlast : (c.level a).toNat ≤ Training.lastLevel := Nat.le_of_lt_succ (c.level a).toNat_lt
    simp [after, levelUps]
    omega
  | cons t rest ih =>
    have hrest := ih (c.train t)
    rw [toNat_level_train] at hrest
    rw [after, List.foldl_cons, ← after, hrest, levelUps]
    omega

/-- Levels are not lost again. -/
theorem level_le_level_after (c : Character) (history : List Training) (a : AbilityId) :
    (c.level a).toNat ≤ ((c.after history).level a).toNat := by
  have hlast : (c.level a).toNat ≤ Training.lastLevel := Nat.le_of_lt_succ (c.level a).toNat_lt
  rw [toNat_level_after]
  omega

/-- Nothing is levelled up before it was added. -/
theorem levelUps_eq_zero {data : CharacterData} {history : List Training} {a : AbilityId} (h : .add a ∉ history) :
    levelUps a ⟨data, ∅⟩ history = 0 := by
  have hlocked : (after ⟨data, ∅⟩ history).mastery? a = none := by
    rw [← Option.not_isSome_iff_eq_none]
    intro hsome
    exact h (mastery?_after_isSome.1 hsome)
  have hlevel := toNat_level_after ⟨data, ∅⟩ history a
  rw [level, hlocked] at hlevel
  have hlast : 0 < Training.lastLevel := by decide
  simp at hlevel
  omega

end Character

/-! ## Look-ups -/

theorem attempt_mastery {ctx : Context} {a : Ability} {c : Character} (hability : ctx.ability = some a)
    (hcharacter : ctx.character = some c.sheet) : Expr.attempt ctx .mastery = pure
      ((a.threshold? (c.level a.id)).elim (.error (.emptyThresholds a.id)) (.ok <| wholeValue ·)) := by
  rw [Expr.attempt, Context.mastery, hability, hcharacter]
  dsimp only
  rw [Character.mastery?_sheet, Character.level]
  cases a.threshold? ((c.mastery? a.id).getD 0) <;> rfl

/-- With a table in ascending order, a higher level means no lower look-up. -/
theorem attempt_mastery_le {a : Ability} (hascending : a.thresholds.Pairwise (· ≤ ·)) {ctx later : Context}
    {c d : Character} (hlevel : (c.level a.id).toNat ≤ (d.level a.id).toNat)
    (hability : ctx.ability = some a) (hcharacter : ctx.character = some c.sheet)
    (hability' : later.ability = some a) (hcharacter' : later.character = some d.sheet) {x y : Float}
    (hx : (Expr.attempt ctx .mastery).value = .ok x) (hy : (Expr.attempt later .mastery).value = .ok y) : x ≤ y := by
  rw [attempt_mastery hability hcharacter] at hx
  rw [attempt_mastery hability' hcharacter'] at hy
  by_cases hempty : a.thresholds = []
  · rw [Ability.threshold?_eq_none_iff.2 hempty] at hx
    exact absurd hx (by simp)
  · obtain ⟨hc, hentry⟩ := Ability.threshold?_eq_some hempty (c.level a.id)
    obtain ⟨hd, hentry'⟩ := Ability.threshold?_eq_some hempty (d.level a.id)
    rw [hentry] at hx
    rw [hentry'] at hy
    obtain rfl := Except.ok.inj hx
    obtain rfl := Except.ok.inj hy
    exact wholeValue_le (getElem_le_of_pairwise hascending (by omega) hd)

/-- **Look-ups of mastery follow the table along every history.** The level of an ability is the number of level-ups
that went well, as far as there are levels, and zero before the ability was added. A look-up gives the entry of the
table at that level, the last one if the table ends before it, and fails if the table is empty. With a table in
ascending order no look-up gives less than an earlier one. -/
theorem mastery_along_history (a : Ability) (data : CharacterData) (history : List Training) {ctx : Context}
    (hability : ctx.ability = some a) (hcharacter : ctx.character = some (Character.after ⟨data, ∅⟩ history).sheet) :
    let level := min (Character.levelUps a.id ⟨data, ∅⟩ history) Training.lastLevel
    let index := min level (a.thresholds.length - 1)
    (.add a.id ∉ history → level = 0) ∧
      (a.thresholds ≠ [] → ∃ h : index < a.thresholds.length,
        Expr.attempt ctx .mastery = pure (.ok (wholeValue a.thresholds[index]))) ∧
      (a.thresholds = [] → Expr.attempt ctx .mastery = pure (.error (.emptyThresholds a.id))) ∧
      (a.thresholds.Pairwise (· ≤ ·) → ∀ (more : List Training) (later : Context), later.ability = some a →
        later.character = some (Character.after ⟨data, ∅⟩ (history ++ more)).sheet → ∀ x y,
          (Expr.attempt ctx .mastery).value = .ok x → (Expr.attempt later .mastery).value = .ok y → x ≤ y) := by
  intro level index
  have hlevel : ((Character.after ⟨data, ∅⟩ history).level a.id).toNat = level := by
    rw [Character.toNat_level_after, show (Character.level ⟨data, ∅⟩ a.id).toNat = 0 from rfl, Nat.zero_add]
  refine ⟨?_, ?_, ?_, ?_⟩
  · intro hnever
    simp [level, Character.levelUps_eq_zero hnever]
  · intro htable
    obtain ⟨hlt, hentry⟩ := Ability.threshold?_eq_some htable ((Character.after ⟨data, ∅⟩ history).level a.id)
    simp only [hlevel] at hlt hentry
    refine ⟨hlt, ?_⟩
    rw [attempt_mastery hability hcharacter, hentry]
    rfl
  · intro hempty
    rw [attempt_mastery hability hcharacter, Ability.threshold?_eq_none_iff.2 hempty]
    rfl
  · intro hascending more later hability' hcharacter' x y hx hy
    rw [Character.after, List.foldl_append] at hcharacter'
    exact attempt_mastery_le hascending (Character.level_le_level_after _ more a.id) hability hcharacter hability'
      hcharacter' hx hy

def dashing : Ability :=
  { id := ⟨"dash"⟩, thresholds := [10, 25, 60] }

/-- Nobody but a hero, who is about to dash after a history of training. -/
def heroAfter (history : List Training) : Context :=
  { character := some (Character.after ⟨⟨"hero", ∅, ∅⟩, ∅⟩ history).sheet, ability := some dashing }

/-- Three more level-ups lead past the end of the table. -/
theorem mastery_along_history_dashing :
    let more : List Training := [.levelUp ⟨"dash"⟩, .levelUp ⟨"dash"⟩, .levelUp ⟨"dash"⟩]
    Expr.attempt (heroAfter Character.clumsy) .mastery = pure (.ok 25) ∧
      Expr.attempt (heroAfter (Character.clumsy ++ more)) .mastery = pure (.ok 60) ∧ (25 : Float) ≤ 60 := by
  intro more
  have hvalue : wholeValue 25 = 25 := by decide +kernel
  have hvalue' : wholeValue 60 = 60 := by decide +kernel
  rw [← hvalue, ← hvalue']
  obtain ⟨-, hentry, -, hascending⟩ :=
    @mastery_along_history dashing ⟨"hero", ∅, ∅⟩ Character.clumsy (heroAfter Character.clumsy) rfl rfl
  obtain ⟨-, hentry', -, -⟩ :=
    @mastery_along_history dashing ⟨"hero", ∅, ∅⟩ (Character.clumsy ++ more) (heroAfter (Character.clumsy ++ more)) rfl
      rfl
  obtain ⟨_, hfirst⟩ := hentry (by decide)
  obtain ⟨_, hlast⟩ := hentry' (by decide)
  exact ⟨hfirst, hlast, hascending (by decide) more (heroAfter (Character.clumsy ++ more)) rfl rfl _ _
    (congrArg Traced.value hfirst) (congrArg Traced.value hlast)⟩

end Formulary
