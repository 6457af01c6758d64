import Mathlib.Data.List.Induction
import Formulary.Character

/-!
# Mastery over a history

What comes of training is told from its history: an ability has a level once it was added, and the level counts how
often it was levelled up since (`Training.level?`). One step changes the level of one ability and nothing else
(`mastery?_train`, `data_train`), so by induction every character has the levels of its history (`mastery?_after`).
-/

namespace Formulary

inductive Training where
  | add (ability : AbilityId)
  | levelUp (ability : AbilityId)
deriving DecidableEq

namespace Training

def ability : Training → AbilityId
  | .add a | .levelUp a => a

def lastLevel : Nat := 0xFFFFFFFF

/-- The level of an ability after a history. An ability that was never added has none. Any other has been raised by
one each time that it was levelled up after it was first added, as far as there are levels. -/
def level? (history : List Training) (a : AbilityId) : Option Nat :=
  match history.dropWhile (· ≠ .add a) with
  | [] => none
  | _ :: since => some (min (since.count (.levelUp a)) lastLevel)

/-- What becomes of the level of an ability in one step. -/
def advance (t : Training) (a : AbilityId) : Option Nat → Option Nat
  | none => if t = .add a then some 0 else none
  | some level => some (if t = .levelUp a then min (level + 1) lastLevel else level)

theorem level?_append (history : List Training) (t : Training) (a : AbilityId) :
    level? (history ++ [t]) a = t.advance a (level? history a) := by
  unfold level?
  rw [List.dropWhile_append]
  cases h : history.dropWhile (· ≠ .add a) with
  | nil => by_cases ht : t = .add a <;> simp [advance, ht]
  | cons first since =>
    by_cases ht : t = .levelUp a
    · simp [advance, ht]
      omega
    · simp [advance, ht]

/-- A step does nothing to the levels of other abilities. -/
theorem advance_of_ne {t : Training} {a : AbilityId} (h : a ≠ t.ability) (level : Option Nat) :
    t.advance a level = level := by
  have hadd : t ≠ .add a := by
    rintro rfl
    exact h rfl
  have hup : t ≠ .levelUp a := by
    rintro rfl
    exact h rfl
  cases level <;> simp [advance, hadd, hup]

/-- An ability has a level exactly if it was added. -/
theorem level?_isSome {history : List Training} {a : AbilityId} :
    (level? history a).isSome = true ↔ .add a ∈ history := by
  induction history with
  | nil => simp [level?]
  | cons t history ih =>
    by_cases ht : t = .add a
    · simp [level?, ht]
    · have hlevel : level? (t :: history) a = level? history a := by simp [level?, ht]
      simp [hlevel, ih, Ne.symm ht]

end Training

namespace Character

/-! ## One step -/

/-- The character after a step of training, whether or not it went well. -/
def train (c : Character) : Training → Character
  | .add a => (c.addAbility a).2
  | .levelUp a => (c.levelUp a).value.2

theorem toNat_nextLevel (level : UInt32) :
    (nextLevel level).toNat = min (level.toNat + 1) Training.lastLevel := by
  have hlast : level.toNat ≤ Training.lastLevel := Nat.le_of_lt_succ level.toNat_lt
  unfold nextLevel
  by_cases h : level = 0xFFFFFFFF
  · subst h
    decide
  · have hne : level.toNat ≠ Training.lastLevel := fun heq => h (UInt32.toNat_inj.1 heq)
    rw [if_neg h, UInt32.toNat_add]
    simp [Training.lastLevel] at *
    omega

theorem addAbility_of_some {c : Character} {a : AbilityId} {level : UInt32} (h : c.mastery? a = some level) :
    c.addAbility a = (false, c) := by
  have hcontains : c.abilities.contains a = true := by rw [Table.contains, ← mastery?, h]; rfl
  rw [addAbility, if_pos hcontains]

theorem addAbility_of_none {c : Character} {a : AbilityId} (h : c.mastery? a = none) :
    c.addAbility a = (true, { c with abilities := c.abilities.insert a 0 }) := by
  have hcontains : ¬ c.abilities.contains a = true := by rw [Table.contains, ← mastery?, h]; simp
  rw [addAbility, if_neg hcontains]

theorem levelUp_of_some {c : Character} {a : AbilityId} {level : UInt32} (h : c.mastery? a = some level) :
    c.levelUp a = pure (.ok (nextLevel level), { c with abilities := c.abilities.insert a (nextLevel level) }) := by
  rw [levelUp, h]

theorem levelUp_of_none {c : Character} {a : AbilityId} (h : c.mastery? a = none) :
    c.levelUp a = ⟨(.error (.unknownAbility a), c), [.abilityMissing c.data.id a]⟩ := by
  rw [levelUp, h]
  rfl

theorem mastery?_insert (c : Character) (a b : AbilityId) (level : UInt32) :
    mastery? { c with abilities := c.abilities.insert a level } b = if b = a then some level else c.mastery? b :=
  Table.get?_insert ..

/-- **What a step does to the levels**: the one of its own ability advances, all others stay as they are. -/
theorem mastery?_train (c : Character) (t : Training) (a : AbilityId) :
    ((c.train t).mastery? a).map UInt32.toNat = t.advance a ((c.mastery? a).map UInt32.toNat) := by
  cases t with
  | add b =>
    cases hb : c.mastery? b with
    | none =>
      rw [train, addAbility_of_none hb, mastery?_insert]
      by_cases hab : a = b
      · subst hab
        simp [hb, Training.advance]
      · cases ha : c.mastery? a <;> simp [Training.advance, hab, Ne.symm hab]
    | some level =>
      rw [train, addAbility_of_some hb]
      cases ha : c.mastery? a with
      | none =>
        have hba : b ≠ a := by
          rintro rfl
          simp [ha] at hb
        simp [Training.advance, hba]
      | some other => simp [Training.advance]
  | levelUp b =>
    cases hb : c.mastery? b with
    | none =>
      rw [train, levelUp_of_none hb]
      cases ha : c.mastery? a with
      | none => simp [Training.advance]
      | some level =>
        have hba : b ≠ a := by
          rintro rfl
          simp [ha] at hb
        simp [Training.advance, hba]
    | some level =>
      rw [train, levelUp_of_some hb, Traced.value_pure]
      dsimp only
      rw [mastery?_insert]
      by_cases hab : a = b
      · subst hab
        simp [hb, Training.advance, toNat_nextLevel]
      · cases ha : c.mastery? a <;> simp [Training.advance, hab, Ne.symm hab]

theorem mastery?_train_of_ne (c : Character) {t : Training} {a : AbilityId} (h : a ≠ t.ability) :
    (c.train t).mastery? a = c.mastery? a := by
  have hlevels := c.mastery?_train t a
  rw [Training.advance_of_ne h] at hlevels
  exact Option.map_injective (fun _ _ => UInt32.toNat_inj.1) hlevels

theorem data_train (c : Character) (t : Training) : (c.train t).data = c.data := by
  cases t with
  | add a => cases h : c.mastery? a <;> simp [train, addAbility_of_none, addAbility_of_some, h]
  | levelUp a => cases h : c.mastery? a <;> simp [train, levelUp_of_none, levelUp_of_some, h]

/-! ## Whole histories -/

def after (c : Character) (history : List Training) : Character :=
  history.foldl train c

theorem after_append (c : Character) (history : List Training) (t : Training) :
    c.after (history ++ [t]) = (c.after history).train t :=
  List.foldl_append

theorem data_after (c : Character) (history : List Training) : (c.after history).data = c.data := by
  induction history using List.reverseRecOn with
  | nil => rfl
  | append_singleton history t ih => rw [after_append, data_train, ih]

/-- **The levels of a character are those of its history**, if it started without abilities. -/
theorem mastery?_after (data : CharacterData) (history : List Training) (a : AbilityId) :
    ((after ⟨data, ∅⟩ history).mastery? a).map UInt32.toNat = Training.level? history a := by
  induction history using List.reverseRecOn with
  | nil => rfl
  | append_singleton history t ih => rw [after_append, mastery?_train, ih, Training.level?_append]

theorem mastery?_after_isSome {data : CharacterData} {history : List Training} {a : AbilityId} :
    ((after ⟨data, ∅⟩ history).mastery? a).isSome = true ↔ .add a ∈ history := by
  rw [← Training.level?_isSome, ← mastery?_after data, Option.isSome_map]

/-- **Mastery over a whole history.** Whatever is done to the abilities of a new character, each of them has the level
that the history gives it, and the data of the character is untouched. Of the next step: an ability is new exactly if
it was not added before, and adding one that is not new does nothing; levelling up works exactly if it was, gives the
level that is then held, and otherwise leaves one error in the log and the character as it was; and no step reaches
another ability. -/
theorem levels_of_history (data : CharacterData) (history : List Training) :
    let c := after ⟨data, ∅⟩ history
    (∀ a, (c.mastery? a).map UInt32.toNat = Training.level? history a) ∧
      c.data = data ∧
      (∀ a, (c.addAbility a).1 = decide (.add a ∉ history)) ∧
      (∀ a, .add a ∈ history → (c.addAbility a).2 = c) ∧
      (∀ a, .add a ∈ history → ∃ level, c.levelUp a = pure (.ok level, c.train (.levelUp a)) ∧
        (c.train (.levelUp a)).mastery? a = some level) ∧
      (∀ a, .add a ∉ history → (c.levelUp a).value = (.error (.unknownAbility a), c) ∧ c.train (.levelUp a) = c ∧
        ∃ event, (c.levelUp a).events = [event] ∧ event.level = .error ∧
          event.fields = [("character", .text data.id), ("ability", .text a.name)]) ∧
      ∀ t, (c.train t).data = data ∧ ∀ b, b ≠ t.ability → (c.train t).mastery? b = c.mastery? b := by
  intro c
  have hdata : c.data = data := data_after ⟨data, ∅⟩ history
  have hknown {a : AbilityId} (ha : .add a ∈ history) : ∃ level, c.mastery? a = some level :=
    Option.isSome_iff_exists.1 (mastery?_after_isSome.2 ha)
  have hunknown {a : AbilityId} (ha : .add a ∉ history) : c.mastery? a = none := by
    rw [← Option.not_isSome_iff_eq_none]
    intro hsome
    exact ha (mastery?_after_isSome.1 hsome)
  refine ⟨mastery?_after data history, hdata, ?_, ?_, ?_, ?_, ?_⟩
  · intro a
    by_cases ha : .add a ∈ history
    · obtain ⟨level, hlevel⟩ := hknown ha
      simp [addAbility_of_some hlevel, ha]
    · simp [addAbility_of_none (hunknown ha), ha]
  · intro a ha
    obtain ⟨level, hlevel⟩ := hknown ha
    rw [addAbility_of_some hlevel]
  · intro a ha
    obtain ⟨level, hlevel⟩ := hknown ha
    have htrain : c.train (.levelUp a) = { c with abilities := c.abilities.insert a (nextLevel level) } := by
      simp [train, levelUp_of_some hlevel]
    refine ⟨nextLevel level, ?_, ?_⟩
    · rw [levelUp_of_some hlevel, htrain]
    · rw [htrain, mastery?_insert, if_pos rfl]
  · intro a ha
    have hlevel := levelUp_of_none (hunknown ha)
    rw [hdata] at hlevel
    refine ⟨by rw [hlevel], by simp [train, hlevel], .abilityMissing data.id a, by rw [hlevel], rfl, rfl⟩
  · intro t
    refine ⟨by rw [data_train, hdata], ?_⟩
    intro b hb
    exact c.mastery?_train_of_ne hb

/-- A character levels up before it has learnt anything, learns to dash, levels up, learns it again, and tries to
fly. -/
def clumsy : List Training :=
  [.levelUp ⟨"dash"⟩, .add ⟨"dash"⟩, .levelUp ⟨"dash"⟩, .add ⟨"dash"⟩, .levelUp ⟨"fly"⟩]

theorem levels_of_history_clumsy :
    let c := after ⟨⟨"hero", ∅, ∅⟩, ∅⟩ clumsy
    c.mastery? ⟨"dash"⟩ = some 1 ∧ c.mastery? ⟨"fly"⟩ = none ∧ (c.addAbility ⟨"dash"⟩).2 = c ∧
      c.levelUp ⟨"dash"⟩ = pure (.ok 2, c.train (.levelUp ⟨"dash"⟩)) ∧
      (c.train (.levelUp ⟨"dash"⟩)).mastery? ⟨"fly"⟩ = c.mastery? ⟨"fly"⟩ ∧
      (c.levelUp ⟨"fly"⟩).value = (.error (.unknownAbility ⟨"fly"⟩), c) := by
  obtain ⟨-, -, -, hadd, hup, hfail, hothers⟩ := levels_of_history ⟨"hero", ∅, ∅⟩ clumsy
  obtain ⟨level, hok, hlevel⟩ := hup ⟨"dash"⟩ (by decide)
  have htwo : ((after ⟨⟨"hero", ∅, ∅⟩, ∅⟩ clumsy).train (.levelUp ⟨"dash"⟩)).mastery? ⟨"dash"⟩ = some 2 := by decide
  obtain rfl := Option.some.inj (hlevel.symm.trans htwo)
  exact ⟨by decide, by decide, hadd ⟨"dash"⟩ (by decide), hok, (hothers _).2 ⟨"fly"⟩ (by decide),
    (hfail ⟨"fly"⟩ (by decide)).1⟩

end Character

end Formulary
