import Formulary.Ability
import Formulary.Character
import Formulary.Json.Basic

/-!
# Contexts

A context holds what look-ups read: a character, character data and an ability, each of which may be
absent, and extra values of a game's own. It is built from arguments either with the first of each role
winning (`Context.ofArguments`) or by setting them one after the other, so that the last one wins
(`Context.set`).
-/

namespace Formulary

/-- Something that a context can hold in one of its roles. -/
inductive Argument where
  | character (c : Sheet)
  | characterData (d : CoreStats)
  | ability (a : Ability)

def Argument.role : Argument → Role
  | .character _ => .character
  | .characterData _ => .characterData
  | .ability _ => .ability

/-- What the look-ups of a tree read. -/
structure Context where
  character : Option Sheet := none
  characterData : Option CoreStats := none
  ability : Option Ability := none
  extras : Table String Json := ∅

namespace Context

def empty : Context := {}

def holds (ctx : Context) : Role → Bool
  | .character => ctx.character.isSome
  | .characterData => ctx.characterData.isSome
  | .ability => ctx.ability.isSome

/-- The context with an argument in its role, whatever was there before. -/
def set (ctx : Context) : Argument → Context
  | .character c => { ctx with character := some c }
  | .characterData d => { ctx with characterData := some d }
  | .ability a => { ctx with ability := some a }

/-- The context with an argument in its role, unless something is there already. -/
def offer (ctx : Context) (argument : Argument) : Traced Context :=
  if ctx.holds argument.role then do
    Traced.log (.argumentIgnored argument.role)
    pure ctx
  else pure (ctx.set argument)

def offerAll (ctx : Context) : List Argument → Traced Context
  | [] => pure ctx
  | argument :: rest => do
    let ctx ← ctx.offer argument
    ctx.offerAll rest

/-- The context of a list of arguments, of those in one role the first. -/
def ofArguments (arguments : List Argument) : Traced Context :=
  empty.offerAll arguments

/-! ## Look-ups -/

/-- A core stat of the character. Character data is read only if there is no character. -/
def coreStat? (ctx : Context) (stat : StatId) : Option Int32 :=
  match ctx.character with
  | some c => c.coreStat? stat
  | none => ctx.characterData.bind (·.coreStat? stat)

/-- A derived stat of the character, zero without one. -/
def derivedStat (ctx : Context) (stat : DerivedStat) : Traced Float :=
  match ctx.character with
  | some c => c.derivedStat stat
  | none => pure 0

theorem events_derivedStat (ctx : Context) (stat : DerivedStat) : (ctx.derivedStat stat).events = [] ∨
    ∃ derived core, (ctx.derivedStat stat).events = [.statDividedByZero derived core] := by
  unfold derivedStat
  split
  · next c _ => exact c.events_derivedStat stat
  · exact .inl rfl

/-- The threshold of the ability at the character's mastery of it, zero without either. An ability
that is not unlocked is at level zero. -/
def mastery (ctx : Context) : Except FormulaError Float :=
  match ctx.ability, ctx.character with
  | some a, some c =>
    match a.threshold? ((c.mastery? a.id).getD 0) with
    | some threshold => .ok (wholeValue threshold)
    | none => .error (.emptyThresholds a.id)
  | _, _ => .ok 0

end Context

end Formulary
