import Formulary.Proofs.Expr.Failures

/-!
# Validation and evaluation

A valid tree never fails for want of an operand (`complete_of_validate`). In a tree that is not valid, evaluation comes
to a gap unless a division by zero stops it before (`validate_or_gapped`), so without divisions validation tells exactly
whether an operand is found missing.
-/

namespace Formulary

def FormulaError.IsMissing (error : FormulaError) : Prop :=
  ∃ node operand, error = .missingOperand node operand

/-- Whether an error says that an operand to divide by is close to zero. -/
def FormulaError.IsZeroDivision (error : FormulaError) : Prop :=
  ∃ index, error = .divisionByZero index

namespace Expr

/-! ## Divisions in a tree -/

mutual

/-- Whether a tree divides anywhere. -/
def divides : Expr → Bool
  | .chain op xs => op = .division || slotsDivide xs
  | .extremum _ xs => slotsDivide xs
  | .power a b | .logarithmic a b => slotDivides a || slotDivides b
  | .exponential a => slotDivides a
  | .clamp a b c => slotDivides a || (slotDivides b || slotDivides c)
  | .constant _ | .euler | .coreStat _ | .derivedStat _ | .mastery => false

def slotDivides : Option Expr → Bool
  | none => false
  | some e => divides e

def slotsDivide : List (Option Expr) → Bool
  | [] => false
  | x :: xs => slotDivides x || slotsDivide xs

end

/-! ## Two checks in a row -/

/-- Two checks in a row succeed if both do. -/
theorem checks_eq_ok {x y : Except FormulaError Unit} :
    (x >>= fun _ => y) = .ok () ↔ x = .ok () ∧ y = .ok () := by
  cases x with
  | ok a =>
    constructor
    · intro h
      exact ⟨rfl, h⟩
    · intro h
      exact h.2
  | error e => simp [bind, Except.bind]

theorem validate_power {a b : Option Expr} : validate (.power a b) = .ok () ↔
    validateOperand .power .base a = .ok () ∧ validateOperand .power .exponent b = .ok () := by
  rw [validate]
  exact checks_eq_ok

theorem validate_logarithmic {a b : Option Expr} : validate (.logarithmic a b) = .ok () ↔
    validateOperand .logarithmic .base a = .ok () ∧ validateOperand .logarithmic .power b = .ok () := by
  rw [validate]
  exact checks_eq_ok

theorem validate_clamp {a b c : Option Expr} : validate (.clamp a b c) = .ok () ↔
    validateOperand .clamp .value a = .ok () ∧ validateOperand .clamp .min b = .ok () ∧
      validateOperand .clamp .max c = .ok () := by
  rw [validate, checks_eq_ok, checks_eq_ok]

theorem validateAll_cons {node : Kind} {x : Option Expr} {xs : List (Option Expr)} :
    validateAll node (x :: xs) = .ok () ↔
      validateOperand node .value x = .ok () ∧ validateAll node xs = .ok () := by
  rw [validateAll]
  exact checks_eq_ok

theorem validatePresent_some {e : Expr} {xs : List (Option Expr)} :
    validatePresent (some e :: xs) = .ok () ↔ validate e = .ok () ∧ validatePresent xs = .ok () := by
  rw [validatePresent]
  exact checks_eq_ok

/-- An operand that is needed is valid if it is there and valid itself. -/
theorem validateOperand_eq_ok {node : Kind} {operand : OperandName} {x : Option Expr} :
    validateOperand node operand x = .ok () ↔ ∃ e, x = some e ∧ validate e = .ok () := by
  cases x with
  | none => simp [validateOperand]
  | some e => simp [validateOperand]

/-! ## Valid trees -/

/-- No failure that was logged says that an operand is missing. -/
def Complete {α : Type} (t : Traced α) : Prop :=
  ∀ failure ∈ t.failures, ¬ failure.error.IsMissing

theorem complete_pure {α : Type} (a : α) : Complete (pure a) := by
  simp [Complete]

theorem complete_failed (node : Expr) {error : FormulaError} (h : ¬ error.IsMissing) :
    Complete (failed node error) := by
  simpa [Complete] using h

theorem complete_bind {α β : Type} {t : Traced α} {f : α → Traced β} (ht : Complete t)
    (hf : ∀ a, Complete (f a)) : Complete (t >>= f) := by
  intro failure h
  rw [Traced.failures_bind, List.mem_append] at h
  rcases h with h | h
  · exact ht failure h
  · exact hf t.value failure h

theorem complete_map {α β : Type} {t : Traced α} (f : α → β) (ht : Complete t) : Complete (f <$> t) := by
  intro failure h
  rw [Traced.failures_map] at h
  exact ht failure h

theorem not_isMissing_mastery {ctx : Context} {error : FormulaError} (h : ctx.mastery = .error error) :
    ¬ error.IsMissing := by
  unfold Context.mastery at h
  split at h
  · split at h
    · exact absurd h (by simp)
    · cases h
      simp [FormulaError.IsMissing]
  · exact absurd h (by simp)

section
variable (ctx : Context)

mutual

/-- **A valid tree never lacks an operand** when it is evaluated. -/
theorem complete_of_validate : ∀ e : Expr, validate e = .ok () → Complete (evaluate ctx e)
  | .constant x, _ => by
    rw [evaluate_constant]
    exact complete_pure x
  | .euler, _ => by
    rw [evaluate_euler]
    exact complete_pure eulerNumber
  | .coreStat stat, _ => by
    rw [evaluate_coreStat]
    exact complete_pure _
  | .derivedStat stat, _ => by
    rw [evaluate_derivedStat]
    simp [Complete]
  | .mastery, _ => by
    rw [evaluate_mastery]
    cases h : ctx.mastery with
    | ok value => exact complete_pure value
    | error error => exact complete_failed .mastery (not_isMissing_mastery h)
  | .chain op xs, h => by
    rw [evaluate_chain]
    exact evaluateChain_complete (.chain op xs) op xs op.start 0 (by rwa [validate] at h)
  | .extremum side xs, h => by
    rw [evaluate_extremum]
    exact complete_map side.among (evaluatePresent_complete side xs 0 (by rwa [validate] at h))
  | .power a b, h => by
    obtain ⟨ha, hb⟩ := validate_power.1 h
    obtain ⟨a, rfl, ha⟩ := validateOperand_eq_ok.1 ha
    obtain ⟨b, rfl, hb⟩ := validateOperand_eq_ok.1 hb
    rw [evaluate_power]
    exact complete_bind (complete_of_validate a ha) fun base =>
      complete_map (Float.pow base) (complete_of_validate b hb)
  | .exponential a, h => by
    rw [validate] at h
    obtain ⟨a, rfl, ha⟩ := validateOperand_eq_ok.1 h
    rw [evaluate_exponential]
    exact complete_map Float.exp (complete_of_validate a ha)
  | .logarithmic a b, h => by
    obtain ⟨ha, hb⟩ := validate_logarithmic.1 h
    obtain ⟨a, rfl, ha⟩ := validateOperand_eq_ok.1 ha
    obtain ⟨b, rfl, hb⟩ := validateOperand_eq_ok.1 hb
    rw [evaluate_logarithmic]
    refine complete_bind (complete_of_validate a ha) fun base => ?_
    refine complete_bind (complete_of_validate b hb) fun power => ?_
    cases checkedLog power base with
    | some value => exact complete_pure value
    | none => exact complete_failed _ (by simp [FormulaError.IsMissing])
  | .clamp a b c, h => by
    obtain ⟨ha, hb, hc⟩ := validate_clamp.1 h
    obtain ⟨a, rfl, ha⟩ := validateOperand_eq_ok.1 ha
    obtain ⟨b, rfl, hb⟩ := validateOperand_eq_ok.1 hb
    obtain ⟨c, rfl, hc⟩ := validateOperand_eq_ok.1 hc
    rw [evaluate_clamp]
    refine complete_bind (complete_of_validate a ha) fun value => ?_
    refine complete_bind (complete_of_validate b hb) fun min => ?_
    exact complete_map (Formulary.clamp value min) (complete_of_validate c hc)

theorem evaluateChain_complete (node : Expr) (op : Operator) : ∀ (xs : List (Option Expr)) (value : Float)
    (index : Nat), validateAll (.chain op) xs = .ok () → Complete (evaluateChain ctx node op value index xs)
  | [], value, index, _ => by
    rw [evaluateChain_nil]
    exact complete_pure value
  | none :: xs, value, index, h => by
    obtain ⟨e, he, -⟩ := validateOperand_eq_ok.1 (validateAll_cons.1 h).1
    exact absurd he (by simp)
  | some e :: xs, value, index, h => by
    obtain ⟨he, hxs⟩ := validateAll_cons.1 h
    rw [evaluateChain_some]
    refine complete_bind (complete_of_validate e he) fun x => ?_
    cases op.apply? value x with
    | some value => exact evaluateChain_complete node op xs value (index + 1) hxs
    | none => exact complete_failed node (by simp [FormulaError.IsMissing])

theorem evaluatePresent_complete (side : Extremum) : ∀ (xs : List (Option Expr)) (index : Nat),
    validatePresent xs = .ok () → Complete (evaluatePresent ctx side index xs)
  | [], index, _ => by
    rw [evaluatePresent_nil]
    exact complete_pure []
  | none :: xs, index, h => by
    rw [validatePresent] at h
    rw [evaluatePresent_none]
    exact complete_bind (by simp [Complete]) fun _ => evaluatePresent_complete side xs (index + 1) h
  | some e :: xs, index, h => by
    obtain ⟨he, hxs⟩ := validatePresent_some.1 h
    rw [evaluatePresent_some]
    refine complete_bind (complete_of_validate e he) fun value => ?_
    exact complete_map (value :: ·) (evaluatePresent_complete side xs (index + 1) hxs)

end

end

/-! ## Trees with a gap -/

/-- A failure was logged that says that an operand is missing or, in a tree that divides, that a division is by
zero. -/
def Gapped {α : Type} (division : Bool) (t : Traced α) : Prop :=
  ∃ failure ∈ t.failures, failure.error.IsMissing ∨ division = true ∧ failure.error.IsZeroDivision

theorem gapped_missing (division : Bool) (node : Expr) (kind : Kind) (operand : OperandName) :
    Gapped division (failed node (.missingOperand kind operand)) :=
  ⟨_, List.mem_singleton_self _, .inl ⟨kind, operand, rfl⟩⟩

theorem gapped_zeroDivision {division : Bool} (h : division = true) (node : Expr) (index : Nat) :
    Gapped division (failed node (.divisionByZero index)) :=
  ⟨_, List.mem_singleton_self _, .inr ⟨h, index, rfl⟩⟩

theorem Gapped.mono {α : Type} {d d' : Bool} {t : Traced α} (h : Gapped d t) (hd : d = true → d' = true) :
    Gapped d' t := by
  obtain ⟨failure, hmem, herror⟩ := h
  exact ⟨failure, hmem, herror.imp_right fun hzero => ⟨hd hzero.1, hzero.2⟩⟩

theorem Gapped.bind {α β : Type} {d : Bool} {t : Traced α} (h : Gapped d t) (f : α → Traced β) :
    Gapped d (t >>= f) := by
  obtain ⟨failure, hmem, herror⟩ := h
  refine ⟨failure, ?_, herror⟩
  rw [Traced.failures_bind]
  exact List.mem_append_left _ hmem

theorem Gapped.bind_right {α β : Type} {d : Bool} (t : Traced α) {f : α → Traced β} (h : Gapped d (f t.value)) :
    Gapped d (t >>= f) := by
  obtain ⟨failure, hmem, herror⟩ := h
  refine ⟨failure, ?_, herror⟩
  rw [Traced.failures_bind]
  exact List.mem_append_right _ hmem

theorem Gapped.map {α β : Type} {d : Bool} {t : Traced α} (h : Gapped d t) (f : α → β) : Gapped d (f <$> t) := by
  obtain ⟨failure, hmem, herror⟩ := h
  exact ⟨failure, by rwa [Traced.failures_map], herror⟩

/-- A computation of two parts comes to a gap if one of the parts does. -/
theorem or_gapped_bind {α β : Type} {p q : Prop} {d d' : Bool} {t : Traced α} {f : α → Traced β}
    (ht : p ∨ Gapped d t) (hf : q ∨ Gapped d' (f t.value)) : p ∧ q ∨ Gapped (d || d') (t >>= f) := by
  rcases ht with hp | ht
  · rcases hf with hq | hf
    · exact .inl ⟨hp, hq⟩
    · exact .inr (.bind_right t (hf.mono fun h => by simp [h]))
  · exact .inr (.bind (ht.mono fun h => by simp [h]) f)

/-- Only a division refuses an operand. -/
theorem eq_division_of_apply?_eq_none {op : Operator} {a b : Float} (h : op.apply? a b = none) : op = .division := by
  cases op with
  | division => rfl
  | _ => cases h

section
variable (ctx : Context)

mutual

/-- **Evaluation comes to a gap** in a tree that is not valid, unless a division by zero stops it before. -/
theorem validate_or_gapped : ∀ e : Expr, validate e = .ok () ∨ Gapped e.divides (evaluate ctx e)
  | .constant x => .inl rfl
  | .euler => .inl rfl
  | .coreStat stat => .inl rfl
  | .derivedStat stat => .inl rfl
  | .mastery => .inl rfl
  | .chain op xs => by
    rw [evaluate_chain, validate, divides]
    exact validateAll_or_gapped (.chain op xs) op xs op.start 0
  | .extremum side xs => by
    rw [evaluate_extremum, validate, divides]
    exact (validatePresent_or_gapped side xs 0).imp_right fun h => h.map side.among
  | .power none b => by
    rw [evaluate_power_base]
    exact .inr (gapped_missing ..)
  | .power (some a) none => by
    rw [evaluate_power_exponent]
    exact .inr (gapped_missing ..)
  | .power (some a) (some b) => by
    rw [evaluate_power, validate_power, divides]
    refine or_gapped_bind (validate_or_gapped a) ?_
    exact (validate_or_gapped b).imp_right fun h => h.map _
  | .exponential none => by
    rw [evaluate_exponential_power]
    exact .inr (gapped_missing ..)
  | .exponential (some a) => by
    rw [evaluate_exponential, validate, divides]
    exact (validate_or_gapped a).imp_right fun h => h.map Float.exp
  | .logarithmic none b => by
    rw [evaluate_logarithmic_base]
    exact .inr (gapped_missing ..)
  | .logarithmic (some a) none => by
    rw [evaluate_logarithmic_power]
    exact .inr (gapped_missing ..)
  | .logarithmic (some a) (some b) => by
    rw [evaluate_logarithmic, validate_logarithmic, divides]
    refine or_gapped_bind (validate_or_gapped a) ?_
    exact (validate_or_gapped b).imp_right fun h => h.bind _
  | .clamp none b c => by
    rw [evaluate_clamp_value]
    exact .inr (gapped_missing ..)
  | .clamp (some a) none c => by
    rw [evaluate_clamp_min]
    exact .inr (gapped_missing ..)
  | .clamp (some a) (some b) none => by
    rw [evaluate_clamp_max]
    exact .inr (gapped_missing ..)
  | .clamp (some a) (some b) (some c) => by
    rw [evaluate_clamp, validate_clamp, divides]
    refine or_gapped_bind (validate_or_gapped a) (or_gapped_bind (validate_or_gapped b) ?_)
    exact (validate_or_gapped c).imp_right fun h => h.map _

theorem validateAll_or_gapped (node : Expr) (op : Operator) : ∀ (xs : List (Option Expr)) (value : Float)
    (index : Nat), validateAll (.chain op) xs = .ok () ∨
      Gapped (op = .division || slotsDivide xs) (evaluateChain ctx node op value index xs)
  | [], value, index => .inl rfl
  | none :: xs, value, index => by
    rw [evaluateChain_none]
    exact .inr (gapped_missing ..)
  | some e :: xs, value, index => by
    rw [evaluateChain_some, validateAll_cons, slotsDivide, Bool.or_left_comm]
    refine or_gapped_bind (validate_or_gapped e) ?_
    cases happly : op.apply? value (evaluate ctx e).value with
    | some next => exact validateAll_or_gapped node op xs next (index + 1)
    | none =>
      have hdivision := eq_division_of_apply?_eq_none happly
      exact .inr (gapped_zeroDivision (by simp [hdivision]) node index)

theorem validatePresent_or_gapped (side : Extremum) : ∀ (xs : List (Option Expr)) (index : Nat),
    validatePresent xs = .ok () ∨ Gapped (slotsDivide xs) (evaluatePresent ctx side index xs)
  | [], index => .inl rfl
  | none :: xs, index => by
    rw [evaluatePresent_none, validatePresent]
    exact (validatePresent_or_gapped side xs (index + 1)).imp_right fun h => .bind_right _ h
  | some e :: xs, index => by
    rw [evaluatePresent_some, validatePresent_some, slotsDivide]
    refine or_gapped_bind (validate_or_gapped e) ?_
    exact (validatePresent_or_gapped side xs (index + 1)).imp_right fun h => h.map _

end

end

/-! ## Validation as a check on evaluation -/

/-- A tree fails itself only for reasons that are logged. -/
theorem not_isMissing_of_complete {ctx : Context} {e : Expr} (h : Complete (evaluate ctx e)) {error : FormulaError}
    (herror : (e.attempt ctx).value = .error error) : ¬ error.IsMissing := by
  refine h ⟨e, error⟩ ?_
  rw [failures_evaluate, herror]
  exact List.mem_append_right _ (List.mem_singleton_self _)

/-- **Validation is a sound and complete check.** A valid tree lacks no operand in any context, neither in its
own attempt nor in the log. A tree that is not valid logs in every context that an operand is missing or that a
division is by zero. So for a tree that does not divide, being valid and lacking no operand is the same. -/
theorem validate_sound_complete (e : Expr) :
    (validate e = .ok () → ∀ ctx,
      (∀ node error, .nodeFailed node error ∈ (evaluate ctx e).events → ¬ error.IsMissing) ∧
        ∀ error, (e.attempt ctx).value = .error error → ¬ error.IsMissing) ∧
    (∀ gap, validate e = .error gap → ∀ ctx, ∃ node error,
      .nodeFailed node error ∈ (evaluate ctx e).events ∧ (error.IsMissing ∨ error.IsZeroDivision)) ∧
    (e.divides = false → ∀ ctx, validate e = .ok () ↔
      ∀ node error, .nodeFailed node error ∈ (evaluate ctx e).events → ¬ error.IsMissing) := by
  have hcomplete (ctx : Context) (h : validate e = .ok ()) :
      ∀ node error, .nodeFailed node error ∈ (evaluate ctx e).events → ¬ error.IsMissing :=
    fun node error hmem => complete_of_validate ctx e h ⟨node, error⟩ (Traced.mem_failures.2 hmem)
  refine ⟨?_, ?_, ?_⟩
  · intro h ctx
    exact ⟨hcomplete ctx h, fun error => not_isMissing_of_complete (complete_of_validate ctx e h)⟩
  · intro gap h ctx
    obtain ⟨failure, hmem, herror⟩ := (validate_or_gapped ctx e).resolve_left (by simp [h])
    exact ⟨failure.node, failure.error, Traced.mem_failures.1 hmem, herror.imp_right And.right⟩
  · intro hdivides ctx
    constructor
    · exact hcomplete ctx
    · intro h
      apply (validate_or_gapped ctx e).resolve_right
      rintro ⟨failure, hmem, hmissing | ⟨hdivision, -⟩⟩
      · exact h failure.node failure.error (Traced.mem_failures.1 hmem) hmissing
      · exact absurd (hdivides.symm.trans hdivision) (by simp)

def fullSum : Expr :=
  .chain .addition [some (.constant 1), some .mastery]

def gapSum : Expr :=
  .chain .addition [some (.constant 1), none]

theorem validate_fullSum_gapSum :
    (∀ node error, .nodeFailed node error ∈ (evaluate .empty fullSum).events → ¬ error.IsMissing) ∧
      (∃ node error, .nodeFailed node error ∈ (evaluate .empty gapSum).events ∧
        (error.IsMissing ∨ error.IsZeroDivision)) ∧
      ¬ ∀ node error, .nodeFailed node error ∈ (evaluate .empty gapSum).events → ¬ error.IsMissing := by
  have hgap : validate gapSum = .error (.missingOperand (.chain .addition) .value) := rfl
  refine ⟨((validate_sound_complete fullSum).1 rfl .empty).1,
    (validate_sound_complete gapSum).2.1 _ hgap .empty, fun h => ?_⟩
  have hvalid := ((validate_sound_complete gapSum).2.2 rfl .empty).2 h
  exact absurd (hgap.symm.trans hvalid) (by simp)

end Expr

end Formulary
