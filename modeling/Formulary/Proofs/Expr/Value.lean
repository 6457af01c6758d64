import Formulary.Expr.Value

/-!
# Equations of evaluation

What the evaluation of a node does, kind by kind: it evaluates operands, in order, and then either has a value
or logs a failure of its own and counts as zero (`failed`). Every statement about evaluation is proved from
these equations, by recursion over the tree.
-/

namespace Formulary

/-- The outcome of a node that could not compute its value and had no operands evaluated. -/
def Expr.failed (node : Expr) (error : FormulaError) : Traced Float :=
  ⟨0, [.nodeFailed node error]⟩

/-! ## Absorbing failures -/

namespace Expr

/-- Operands are evaluated before the node fails. -/
theorem absorb_bind {α : Type} (node : Expr) (t : Traced α) (f : α → Attempt) :
    absorb node (t >>= f) = t >>= fun a => absorb node (f a) := by
  unfold absorb
  cases h : (f t.value).value with
  | ok value => simp [h, bind]
  | error e => simp [h, bind, List.append_assoc]

theorem absorb_map_ok (node : Expr) (t : Traced Float) : absorb node (.ok <$> t) = t := by
  unfold absorb
  simp

/-! ## Fixed operands

Such a node fails at its first absent operand, before any is evaluated. -/

section
variable (ctx : Context)

theorem attempt_power_base (b : Option Expr) :
    attempt ctx (.power none b) = pure (.error (.missingOperand .power .base)) := rfl

theorem attempt_power_exponent (a : Expr) :
    attempt ctx (.power (some a) none) = pure (.error (.missingOperand .power .exponent)) := rfl

theorem attempt_power (a b : Expr) :
    attempt ctx (.power (some a) (some b)) =
      evaluate ctx a >>= fun base => evaluate ctx b >>= fun exponent => pure (.ok (Float.pow base exponent)) := rfl

theorem attempt_exponential (a : Expr) :
    attempt ctx (.exponential (some a)) = evaluate ctx a >>= fun power => pure (.ok (Float.exp power)) := rfl

theorem attempt_logarithmic_base (b : Option Expr) :
    attempt ctx (.logarithmic none b) = pure (.error (.missingOperand .logarithmic .base)) := rfl

theorem attempt_logarithmic_power (a : Expr) :
    attempt ctx (.logarithmic (some a) none) = pure (.error (.missingOperand .logarithmic .power)) := rfl

theorem attempt_logarithmic (a b : Expr) :
    attempt ctx (.logarithmic (some a) (some b)) =
      evaluate ctx a >>= fun base => evaluate ctx b >>= fun power =>
        match checkedLog power base with
        | some value => pure (.ok value)
        | none => pure (.error (.invalidLogBase base)) := rfl

theorem attempt_clamp_value (b c : Option Expr) :
    attempt ctx (.clamp none b c) = pure (.error (.missingOperand .clamp .value)) := rfl

theorem attempt_clamp_min (a : Expr) (c : Option Expr) :
    attempt ctx (.clamp (some a) none c) = pure (.error (.missingOperand .clamp .min)) := rfl

theorem attempt_clamp_max (a b : Expr) :
    attempt ctx (.clamp (some a) (some b) none) = pure (.error (.missingOperand .clamp .max)) := rfl

theorem attempt_clamp (a b c : Expr) :
    attempt ctx (.clamp (some a) (some b) (some c)) =
      evaluate ctx a >>= fun value => evaluate ctx b >>= fun min => evaluate ctx c >>= fun max =>
        pure (.ok (Formulary.clamp value min max)) := rfl

theorem evaluate_constant (x : Float) : evaluate ctx (.constant x) = pure x := rfl

theorem evaluate_euler : evaluate ctx .euler = pure eulerNumber := rfl

theorem evaluate_coreStat (stat : StatId) :
    evaluate ctx (.coreStat stat) = pure (wholeValue ((ctx.coreStat? stat).getD 0)) := rfl

theorem evaluate_derivedStat (stat : DerivedStat) : evaluate ctx (.derivedStat stat) = ctx.derivedStat stat :=
  absorb_map_ok ..

theorem evaluate_mastery : evaluate ctx .mastery =
    match ctx.mastery with
    | .ok value => pure value
    | .error error => failed .mastery error := by
  rw [evaluate, attempt]
  cases ctx.mastery <;> rfl

theorem evaluate_power_base (b : Option Expr) :
    evaluate ctx (.power none b) = failed (.power none b) (.missingOperand .power .base) := rfl

theorem evaluate_power_exponent (a : Expr) :
    evaluate ctx (.power (some a) none) = failed (.power (some a) none) (.missingOperand .power .exponent) := rfl

theorem evaluate_power (a b : Expr) :
    evaluate ctx (.power (some a) (some b)) =
      evaluate ctx a >>= fun base => Float.pow base <$> evaluate ctx b := by
  rw [evaluate, attempt_power]
  simp only [absorb_bind]
  rfl

theorem evaluate_exponential_power :
    evaluate ctx (.exponential none) = failed (.exponential none) (.missingOperand .exponential .power) := rfl

theorem evaluate_exponential (a : Expr) :
    evaluate ctx (.exponential (some a)) = Float.exp <$> evaluate ctx a := by
  rw [evaluate, attempt_exponential, absorb_bind]
  rfl

theorem evaluate_logarithmic_base (b : Option Expr) :
    evaluate ctx (.logarithmic none b) =
      failed (.logarithmic none b) (.missingOperand .logarithmic .base) := rfl

theorem evaluate_logarithmic_power (a : Expr) :
    evaluate ctx (.logarithmic (some a) none) =
      failed (.logarithmic (some a) none) (.missingOperand .logarithmic .power) := rfl

theorem evaluate_logarithmic (a b : Expr) :
    evaluate ctx (.logarithmic (some a) (some b)) =
      evaluate ctx a >>= fun base => evaluate ctx b >>= fun power =>
        match checkedLog power base with
        | some value => pure value
        | none => failed (.logarithmic (some a) (some b)) (.invalidLogBase base) := by
  rw [evaluate, attempt_logarithmic]
  simp only [absorb_bind]
  refine bind_congr fun base => bind_congr fun power => ?_
  cases checkedLog power base <;> rfl

theorem evaluate_clamp_value (b c : Option Expr) :
    evaluate ctx (.clamp none b c) = failed (.clamp none b c) (.missingOperand .clamp .value) := rfl

theorem evaluate_clamp_min (a : Expr) (c : Option Expr) :
    evaluate ctx (.clamp (some a) none c) = failed (.clamp (some a) none c) (.missingOperand .clamp .min) := rfl

theorem evaluate_clamp_max (a b : Expr) :
    evaluate ctx (.clamp (some a) (some b) none) =
      failed (.clamp (some a) (some b) none) (.missingOperand .clamp .max) := rfl

theorem evaluate_clamp (a b c : Expr) :
    evaluate ctx (.clamp (some a) (some b) (some c)) =
      evaluate ctx a >>= fun value => evaluate ctx b >>= fun min =>
        Formulary.clamp value min <$> evaluate ctx c := by
  rw [evaluate, attempt_clamp]
  simp only [absorb_bind]
  rfl

end

/-! ## Lists of operands -/

section
variable (ctx : Context)

/-- The rest of a chain, once operands before `index` have been joined to `value`. -/
def evaluateChain (node : Expr) (op : Operator) (value : Float) (index : Nat) (xs : List (Option Expr)) :
    Traced Float :=
  absorb node (op.run value index (operands ctx xs))

/-- The values of those entries of a maximum or minimum that are there. -/
def evaluatePresent (side : Extremum) (index : Nat) (xs : List (Option Expr)) : Traced (List Float) :=
  side.present index (operands ctx xs)

theorem evaluate_chain (op : Operator) (xs : List (Option Expr)) :
    evaluate ctx (.chain op xs) = evaluateChain ctx (.chain op xs) op op.start 0 xs := rfl

theorem evaluateChain_nil (node : Expr) (op : Operator) (value : Float) (index : Nat) :
    evaluateChain ctx node op value index [] = pure value := rfl

theorem evaluateChain_none (node : Expr) (op : Operator) (value : Float) (index : Nat) (xs : List (Option Expr)) :
    evaluateChain ctx node op value index (none :: xs) =
      failed node (.missingOperand (.chain op) .value) := rfl

theorem evaluateChain_some (node : Expr) (op : Operator) (value : Float) (index : Nat) (e : Expr)
    (xs : List (Option Expr)) :
    evaluateChain ctx node op value index (some e :: xs) =
      evaluate ctx e >>= fun x =>
        match op.apply? value x with
        | some value => evaluateChain ctx node op value (index + 1) xs
        | none => failed node (.divisionByZero index) := by
  show absorb node (evaluate ctx e >>= fun x => _) = _
  rw [absorb_bind]
  refine bind_congr fun x => ?_
  cases op.apply? value x <;> rfl

theorem evaluate_extremum (side : Extremum) (xs : List (Option Expr)) :
    evaluate ctx (.extremum side xs) = side.among <$> evaluatePresent ctx side 0 xs :=
  absorb_map_ok ..

theorem evaluatePresent_nil (side : Extremum) (index : Nat) : evaluatePresent ctx side index [] = pure [] := rfl

theorem evaluatePresent_none (side : Extremum) (index : Nat) (xs : List (Option Expr)) :
    evaluatePresent ctx side index (none :: xs) =
      Traced.log (.operandSkipped side index) >>= fun _ => evaluatePresent ctx side (index + 1) xs := rfl

theorem evaluatePresent_some (side : Extremum) (index : Nat) (e : Expr) (xs : List (Option Expr)) :
    evaluatePresent ctx side index (some e :: xs) =
      evaluate ctx e >>= fun value => (value :: ·) <$> evaluatePresent ctx side (index + 1) xs := rfl

end

end Expr

end Formulary
