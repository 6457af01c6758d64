import Formulary.Proofs.Expr.Failures

/-!
# Strict evaluation

The strict value of a tree is what it would be worth if a failure were not absorbed: the first failure of an operand
that a node evaluates is the failure of the whole tree. Evaluation tracks it (`evaluate_tracks_strict`).
-/

namespace Formulary.Expr

/-- A value, or the failure that stands in its way. -/
abbrev Strictly (α : Type) := Except Failure α

section
variable (ctx : Context)

mutual

def strict : Expr → Strictly Float
  | .constant x => .ok x
  | .euler => .ok eulerNumber
  | .chain op xs => strictChain (.chain op xs) op op.start 0 xs
  | .extremum side xs => side.among <$> strictPresent xs
  | .power (some a) (some b) => do return Float.pow (← strict a) (← strict b)
  | .power none b => .error ⟨.power none b, .missingOperand .power .base⟩
  | .power (some a) none => .error ⟨.power (some a) none, .missingOperand .power .exponent⟩
  | .exponential (some a) => do return Float.exp (← strict a)
  | .exponential none => .error ⟨.exponential none, .missingOperand .exponential .power⟩
  | .logarithmic (some a) (some b) => do
    let base ← strict a
    let power ← strict b
    match checkedLog power base with
    | some value => .ok value
    | none => .error ⟨.logarithmic (some a) (some b), .invalidLogBase base⟩
  | .logarithmic none b => .error ⟨.logarithmic none b, .missingOperand .logarithmic .base⟩
  | .logarithmic (some a) none => .error ⟨.logarithmic (some a) none, .missingOperand .logarithmic .power⟩
  | .clamp (some a) (some b) (some c) => do
    return Formulary.clamp (← strict a) (← strict b) (← strict c)
  | .clamp none b c => .error ⟨.clamp none b c, .missingOperand .clamp .value⟩
  | .clamp (some a) none c => .error ⟨.clamp (some a) none c, .missingOperand .clamp .min⟩
  | .clamp (some a) (some b) none => .error ⟨.clamp (some a) (some b) none, .missingOperand .clamp .max⟩
  | .coreStat stat => .ok (wholeValue ((ctx.coreStat? stat).getD 0))
  | .derivedStat stat => .ok (ctx.derivedStat stat).value
  | .mastery => ctx.mastery.mapError fun error => ⟨.mastery, error⟩

/-- The strict value of `value` joined with operands of `node`, the first of which stands at `index`. -/
def strictChain (node : Expr) (op : Operator) : (value : Float) → (index : Nat) → List (Option Expr) → Strictly Float
  | value, _, [] => .ok value
  | _, _, none :: _ => .error ⟨node, .missingOperand (.chain op) .value⟩
  | value, index, some e :: xs => do
    match op.apply? value (← strict e) with
    | some value => strictChain node op value (index + 1) xs
    | none => .error ⟨node, .divisionByZero index⟩

/-- The strict values of those entries of a maximum or minimum that are there. -/
def strictPresent : List (Option Expr) → Strictly (List Float)
  | [] => .ok []
  | none :: xs => strictPresent xs
  | some e :: xs => do return (← strict e) :: (← strictPresent xs)

end

end

/-! ## Absorbing and strict computations -/

/-- An absorbing computation tracks a strict one: if the strict one succeeds then no failure is logged and the
values are the same, and otherwise the first failure that is logged is the one that the strict one ends with. -/
def Tracks {α : Type} (t : Traced α) : Strictly α → Prop
  | .ok a => t.failures = [] ∧ t.value = a
  | .error failure => t.failures.head? = some failure

theorem tracks_pure {α : Type} (a : α) : Tracks (pure a) (.ok a) :=
  ⟨rfl, rfl⟩

theorem tracks_failed (node : Expr) (error : FormulaError) : Tracks (failed node error) (.error ⟨node, error⟩) :=
  rfl

/-- Once a failure has been logged it stays the first one, whatever is computed afterwards. -/
theorem tracks_bind {α β : Type} {t : Traced α} {r : Strictly α} {f : α → Traced β} {g : α → Strictly β}
    (ht : Tracks t r) (hf : ∀ a, Tracks (f a) (g a)) : Tracks (t >>= f) (r >>= g) := by
  cases r with
  | error failure =>
    have hhead : t.failures.head? = some failure := ht
    show (t >>= f).failures.head? = some failure
    rw [Traced.failures_bind, List.head?_append, hhead]
    rfl
  | ok a =>
    obtain ⟨hquiet, rfl⟩ := ht
    have hrest := hf t.value
    show Tracks (t >>= f) (g t.value)
    cases hg : g t.value with
    | ok b =>
      rw [hg] at hrest
      exact ⟨by rw [Traced.failures_bind, hquiet, hrest.1]; rfl, hrest.2⟩
    | error failure =>
      rw [hg] at hrest
      show (t >>= f).failures.head? = some failure
      rw [Traced.failures_bind, hquiet]
      exact hrest

theorem tracks_map {α β : Type} {t : Traced α} {r : Strictly α} (f : α → β) (ht : Tracks t r) :
    Tracks (f <$> t) (f <$> r) :=
  tracks_bind ht fun a => tracks_pure (f a)

/-! ## Trees -/

section
variable (ctx : Context)

mutual

/-- **Evaluation tracks strict evaluation.** -/
theorem evaluate_tracks_strict : ∀ e : Expr, Tracks (evaluate ctx e) (strict ctx e)
  | .constant x => by
    rw [evaluate_constant, strict]
    exact tracks_pure x
  | .euler => by
    rw [evaluate_euler, strict]
    exact tracks_pure eulerNumber
  | .coreStat stat => by
    rw [evaluate_coreStat, strict]
    exact tracks_pure _
  | .derivedStat stat => by
    rw [evaluate_derivedStat, strict]
    exact ⟨Traced.failures_derivedStat ctx stat, rfl⟩
  | .mastery => by
    rw [evaluate_mastery, strict]
    cases ctx.mastery with
    | ok value => exact tracks_pure value
    | error error => exact tracks_failed .mastery error
  | .chain op xs => by
    rw [evaluate_chain, strict]
    exact evaluateChain_tracks_strictChain (.chain op xs) op xs op.start 0
  | .extremum side xs => by
    rw [evaluate_extremum, strict]
    exact tracks_map side.among (evaluatePresent_tracks_strictPresent side xs 0)
  | .power none b => by
    rw [evaluate_power_base, strict]
    exact tracks_failed ..
  | .power (some a) none => by
    rw [evaluate_power_exponent, strict]
    exact tracks_failed ..
  | .power (some a) (some b) => by
    rw [evaluate_power, strict]
    exact tracks_bind (evaluate_tracks_strict a) fun base => tracks_map (Float.pow base) (evaluate_tracks_strict b)
  | .exponential none => by
    rw [evaluate_exponential_power, strict]
    exact tracks_failed ..
  | .exponential (some a) => by
    rw [evaluate_exponential, strict]
    exact tracks_map Float.exp (evaluate_tracks_strict a)
  | .logarithmic none b => by
    rw [evaluate_logarithmic_base, strict]
    exact tracks_failed ..
  | .logarithmic (some a) none => by
    rw [evaluate_logarithmic_power, strict]
    exact tracks_failed ..
  | .logarithmic (some a) (some b) => by
    rw [evaluate_logarithmic, strict]
    refine tracks_bind (evaluate_tracks_strict a) fun base => ?_
    refine tracks_bind (evaluate_tracks_strict b) fun power => ?_
    cases checkedLog power base with
    | some value => exact tracks_pure value
    | none => exact tracks_failed ..
  | .clamp none b c => by
    rw [evaluate_clamp_value, strict]
    exact tracks_failed ..
  | .clamp (some a) none c => by
    rw [evaluate_clamp_min, strict]
    exact tracks_failed ..
  | .clamp (some a) (some b) none => by
    rw [evaluate_clamp_max, strict]
    exact tracks_failed ..
  | .clamp (some a) (some b) (some c) => by
    rw [evaluate_clamp, strict]
    refine tracks_bind (evaluate_tracks_strict a) fun value => ?_
    refine tracks_bind (evaluate_tracks_strict b) fun min => ?_
    exact tracks_map (Formulary.clamp value min) (evaluate_tracks_strict c)

theorem evaluateChain_tracks_strictChain (node : Expr) (op : Operator) :
    ∀ (xs : List (Option Expr)) (value : Float) (index : Nat),
      Tracks (evaluateChain ctx node op value index xs) (strictChain ctx node op value index xs)
  | [], value, index => by
    rw [evaluateChain_nil, strictChain]
    exact tracks_pure value
  | none :: xs, value, index => by
    rw [evaluateChain_none, strictChain]
    exact tracks_failed ..
  | some e :: xs, value, index => by
    rw [evaluateChain_some, strictChain]
    refine tracks_bind (evaluate_tracks_strict e) fun x => ?_
    cases op.apply? value x with
    | some value => exact evaluateChain_tracks_strictChain node op xs value (index + 1)
    | none => exact tracks_failed ..

theorem evaluatePresent_tracks_strictPresent (side : Extremum) :
    ∀ (xs : List (Option Expr)) (index : Nat),
      Tracks (evaluatePresent ctx side index xs) (strictPresent ctx xs)
  | [], index => by
    rw [evaluatePresent_nil, strictPresent]
    exact tracks_pure []
  | none :: xs, index => by
    have hskip : Tracks (Traced.log (.operandSkipped side index)) (.ok ()) := ⟨rfl, rfl⟩
    rw [evaluatePresent_none, strictPresent]
    exact tracks_bind hskip fun _ => evaluatePresent_tracks_strictPresent side xs (index + 1)
  | some e :: xs, index => by
    rw [evaluatePresent_some, strictPresent]
    refine tracks_bind (evaluate_tracks_strict e) fun value => ?_
    exact tracks_map (value :: ·) (evaluatePresent_tracks_strictPresent side xs (index + 1))

end

/-- **A quiet evaluation is an exact one**, and the first failure that is logged is the root cause: it is the
failure that the strict evaluation ends with, at the node where it arose. -/
theorem evaluate_quiet_iff_strict (e : Expr) :
    ((∀ event ∈ (evaluate ctx e).events, event.message ≠ "expression evaluated to 0") ↔
        ∃ value, strict ctx e = .ok value) ∧
      (∀ value, strict ctx e = .ok value → (evaluate ctx e).value = value) ∧
      ∀ failure, strict ctx e = .error failure →
        (evaluate ctx e).events.find? (·.message = "expression evaluated to 0") =
          some (.nodeFailed failure.node failure.error) := by
  have htracks := evaluate_tracks_strict ctx e
  cases hstrict : strict ctx e with
  | ok value =>
    rw [hstrict] at htracks
    obtain ⟨hquiet, hvalue⟩ := htracks
    refine ⟨iff_of_true (Traced.failures_eq_nil_iff.1 hquiet) ⟨value, rfl⟩, ?_, by simp⟩
    rintro _ ⟨⟩
    exact hvalue
  | error failure =>
    rw [hstrict] at htracks
    have hhead : (evaluate ctx e).failures.head? = some failure := htracks
    refine ⟨iff_of_false ?_ (by simp), by simp, ?_⟩
    · intro hquiet
      rw [Traced.failures_eq_nil_iff.2 hquiet] at hhead
      exact absurd hhead (by simp)
    · rintro _ ⟨⟩
      exact Traced.find?_of_head?_failures hhead

end

def product : Expr :=
  .chain .multiplication [some (.constant 2), some (.constant 3)]

def quotient : Expr :=
  .chain .division [some (.constant 0)]

/-- A sum that fails itself, after a division that fails first. -/
def brokenSum : Expr :=
  .chain .addition [some quotient, none]

theorem evaluate_product_brokenSum :
    (evaluate .empty product).value = 1 * 2 * 3 ∧
      (evaluate .empty brokenSum).events.find? (·.message = "expression evaluated to 0") =
        some (.nodeFailed quotient (.divisionByZero 0)) :=
  ⟨(evaluate_quiet_iff_strict .empty product).2.1 _ rfl,
    (evaluate_quiet_iff_strict .empty brokenSum).2.2 ⟨quotient, .divisionByZero 0⟩ rfl⟩

end Formulary.Expr
