import Formulary.DerivedStat.Basic
import Formulary.Traced

/-!
# Values of derived stats

The modifiers of a derived stat are applied one after the other to a value that starts at zero. A
division by a term close to zero makes the whole stat zero.
-/

namespace Formulary

/-- The value of a modifier's term, a core stat that is missing counting as zero. -/
def Modifier.term (m : Modifier) (stats : StatId → Option Int32) : Float :=
  wholeValue ((stats m.stat).getD 0) * wholeValue m.weight

/-- Applies modifiers to a value, or finds the first of them that divides by zero. -/
def Modifier.applyAll (stats : StatId → Option Int32) : Float → List Modifier →
    Except Modifier Float
  | value, [] => .ok value
  | value, m :: rest =>
    match m.op.apply? value (m.term stats) with
    | some value => applyAll stats value rest
    | none => .error m

/-- The value of a derived stat for a character with the given core stats. -/
def DerivedStat.evaluate (d : DerivedStat) (stats : StatId → Option Int32) : Traced Float :=
  match Modifier.applyAll stats 0 d.modifiers with
  | .ok value => pure value
  | .error m => do
    Traced.log (.statDividedByZero d.id m.stat)
    pure 0

theorem DerivedStat.events_evaluate (d : DerivedStat) (stats : StatId → Option Int32) :
    (d.evaluate stats).events = [] ∨ ∃ derived core, (d.evaluate stats).events = [.statDividedByZero derived core] := by
  unfold evaluate
  split
  · exact .inl rfl
  · exact .inr ⟨_, _, rfl⟩

end Formulary
