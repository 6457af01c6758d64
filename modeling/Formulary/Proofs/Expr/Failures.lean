import Formulary.Event
import Formulary.Proofs.Expr.Value

/-!
# Failures in a log

Among the events of an evaluation are those of nodes that failed, in the order in which the failures were
noticed. Skipped operands and divisions by zero in derived stats are not among them.
-/

namespace Formulary

/-- A node that could not compute its value, and why. -/
structure Failure where
  node : Expr
  error : FormulaError

def Event.failure? : Event → Option Failure
  | .nodeFailed node error => some ⟨node, error⟩
  | _ => none

theorem Event.message_eq_iff (event : Event) :
    event.message = "expression evaluated to 0" ↔ event.failure?.isSome = true := by
  cases event <;> simp [Event.message, Event.failure?]

/-- The failures that were logged, the first one first. -/
def Traced.failures {α : Type} (t : Traced α) : List Failure :=
  t.events.filterMap Event.failure?

namespace Traced
variable {α β : Type}

@[simp] theorem failures_pure (a : α) : (pure a : Traced α).failures = [] := rfl

@[simp] theorem failures_bind (t : Traced α) (f : α → Traced β) :
    (t >>= f).failures = t.failures ++ (f t.value).failures := by
  simp [failures]

@[simp] theorem failures_map (f : α → β) (t : Traced α) : (f <$> t).failures = t.failures := by
  simp [failures]

@[simp] theorem failures_failed (node : Expr) (error : FormulaError) :
    (Expr.failed node error).failures = [⟨node, error⟩] := rfl

@[simp] theorem failures_log_operandSkipped (side : Extremum) (index : Nat) :
    (log (.operandSkipped side index)).failures = [] := rfl

/-- Derived stats report divisions by zero on their own account, not as failures of nodes. -/
@[simp] theorem failures_derivedStat (ctx : Context) (stat : DerivedStat) : (ctx.derivedStat stat).failures = [] := by
  rw [failures]
  rcases ctx.events_derivedStat stat with h | ⟨derived, core, h⟩ <;> rw [h] <;> rfl

theorem mem_failures {t : Traced α} {failure : Failure} :
    failure ∈ t.failures ↔ .nodeFailed failure.node failure.error ∈ t.events := by
  rw [failures, List.mem_filterMap]
  constructor
  · rintro ⟨event, hevent, h⟩
    cases event with
    | nodeFailed node error =>
      obtain rfl := Option.some.inj h
      exact hevent
    | _ => exact absurd h (by simp [Event.failure?])
  · intro h
    exact ⟨_, h, rfl⟩

/-! ## Failures and messages -/

theorem failures_eq_nil_iff {t : Traced α} :
    t.failures = [] ↔ ∀ event ∈ t.events, event.message ≠ "expression evaluated to 0" := by
  rw [failures, List.filterMap_eq_nil_iff]
  simp only [ne_eq, Event.message_eq_iff, Bool.not_eq_true, Option.isSome_eq_false_iff,
    Option.isNone_iff_eq_none]

/-- The first failure is what the first event with that message reports. -/
theorem find?_of_head?_failures {t : Traced α} {failure : Failure} (h : t.failures.head? = some failure) :
    t.events.find? (·.message = "expression evaluated to 0") = some (.nodeFailed failure.node failure.error) := by
  rw [failures, List.head?_filterMap] at h
  generalize t.events = events at h
  induction events with
  | nil => simp at h
  | cons event events ih =>
    cases event with
    | nodeFailed node error =>
      obtain rfl := Option.some.inj h
      rfl
    | _ => exact ih h

end Traced

/-- Every failure of a node is in the log of its evaluation, last of all. -/
theorem Expr.failures_evaluate (ctx : Context) (e : Expr) :
    (evaluate ctx e).failures = (e.attempt ctx).failures ++
      match (e.attempt ctx).value with
      | .ok _ => []
      | .error error => [⟨e, error⟩] := by
  rw [evaluate, absorb]
  cases (e.attempt ctx).value with
  | ok value => simp [Traced.failures]
  | error error => simp [Traced.failures, Event.failure?]

end Formulary
