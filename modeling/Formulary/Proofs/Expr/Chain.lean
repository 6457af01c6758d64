import Formulary.Proofs.Expr.Value

/-!
# Chains

A chain stops at the first operand that is absent or that its operator refuses (`stopsAt`). Every list of operands is a
part that the chain gets through and then, if anything, an operand that stops it (`exists_through`); the former is a
left fold (`run_through`), the latter decides the error (`attempt_stopped`). Divisions are spelled out in
`division_end_to_end`.
-/

namespace Formulary

/-! ## Operators -/

namespace Operator

/-- The result of an operation, whatever the second value. -/
def join : Operator → Float → Float → Float
  | .addition, a, b => a + b
  | .subtraction, a, b => a - b
  | .multiplication, a, b => a * b
  | .division, a, b => a / b

def refuses : Operator → Float → Bool
  | .division, x => approximately x 0
  | _, _ => false

theorem apply?_eq (op : Operator) (a b : Float) :
    op.apply? a b = if op.refuses b then none else some (op.join a b) := by
  cases op <;> rfl

end Operator

namespace Expr
variable (ctx : Context)

/-! ## Where a chain stops -/

def stopsAt (op : Operator) : Option Expr → Bool
  | none => true
  | some e => op.refuses (evaluate ctx e).value

/-- The position of the first operand that a chain stops at. -/
def stop? (op : Operator) (xs : List (Option Expr)) : Option Nat :=
  xs.findIdx? (stopsAt ctx op)

/-- Why a chain stops at an operand that stands at `index`. -/
def stopError (op : Operator) (index : Nat) : Option Expr → FormulaError
  | none => .missingOperand (.chain op) .value
  | some _ => .divisionByZero index

def slotEvents : Option Expr → List Event
  | none => []
  | some e => (evaluate ctx e).events

variable {ctx} {op : Operator} {es : List Expr}

/-- Every list of operands begins with those that a chain gets through, and the next one, if any, stops it. -/
theorem exists_through (ctx : Context) (op : Operator) (xs : List (Option Expr)) :
    ∃ (es : List Expr) (rest : List (Option Expr)), xs = es.map some ++ rest ∧
      (∀ e ∈ es, op.refuses (evaluate ctx e).value = false) ∧ ∀ x ∈ rest.head?, stopsAt ctx op x = true := by
  induction xs with
  | nil => exact ⟨[], [], rfl, by simp, by simp⟩
  | cons x xs ih =>
    by_cases hx : stopsAt ctx op x = true
    · exact ⟨[], x :: xs, rfl, by simp, by simpa using hx⟩
    · cases x with
      | none => exact absurd rfl hx
      | some e =>
        obtain ⟨es, rest, rfl, hes, hrest⟩ := ih
        refine ⟨e :: es, rest, rfl, ?_, hrest⟩
        intro e' he'
        rcases List.mem_cons.1 he' with rfl | he'
        · simpa [stopsAt] using hx
        · exact hes e' he'

theorem stop?_through (hes : ∀ e ∈ es, op.refuses (evaluate ctx e).value = false) :
    stop? ctx op (es.map some) = none := by
  rw [stop?, List.findIdx?_eq_none_iff]
  intro x hx
  obtain ⟨e, he, rfl⟩ := List.mem_map.1 hx
  exact hes e he

theorem stop?_stopped (hes : ∀ e ∈ es, op.refuses (evaluate ctx e).value = false) {x : Option Expr}
    (hx : stopsAt ctx op x = true) (after : List (Option Expr)) :
    stop? ctx op (es.map some ++ x :: after) = some es.length := by
  have hthrough := stop?_through hes
  rw [stop?] at hthrough
  rw [stop?, List.findIdx?_append, hthrough, List.findIdx?_cons, hx]
  simp

/-! ## What a chain does -/

theorem run_refused {e : Expr} (h : op.refuses (evaluate ctx e).value = true) (value : Float) (index : Nat)
    (xs : List (Option Expr)) :
    op.run value index (operands ctx (some e :: xs)) = ⟨.error (.divisionByZero index), (evaluate ctx e).events⟩ := by
  simp only [operands, operand_eq, Option.map_some, Operator.run, bind, Operator.apply?_eq, h]
  simp

/-- An operand that is not refused is joined to the value so far. -/
theorem run_joined {e : Expr} (h : op.refuses (evaluate ctx e).value = false) (value : Float) (index : Nat)
    (xs : List (Option Expr)) :
    let rest := op.run (op.join value (evaluate ctx e).value) (index + 1) (operands ctx xs)
    op.run value index (operands ctx (some e :: xs)) = ⟨rest.value, (evaluate ctx e).events ++ rest.events⟩ := by
  simp only [operands, operand_eq, Option.map_some, Operator.run, bind, Operator.apply?_eq, h]
  simp

/-- The operands that a chain gets through are joined from left to right. -/
theorem run_through (hes : ∀ e ∈ es, op.refuses (evaluate ctx e).value = false) (value : Float) (index : Nat)
    (xs : List (Option Expr)) :
    let rest := op.run (es.foldl (fun acc e => op.join acc (evaluate ctx e).value) value) (index + es.length)
      (operands ctx xs)
    op.run value index (operands ctx (es.map some ++ xs)) =
      ⟨rest.value, (es.map some).flatMap (slotEvents ctx) ++ rest.events⟩ := by
  induction es generalizing value index with
  | nil => rfl
  | cons e es ih =>
    obtain ⟨he, hes⟩ := List.forall_mem_cons.1 hes
    have hrest := ih hes (op.join value (evaluate ctx e).value) (index + 1)
    rw [List.map_cons, List.cons_append, run_joined he, hrest]
    simp [slotEvents, Nat.add_right_comm, Nat.add_assoc]

/-- A chain that is not stopped has the value of all its operands joined. -/
theorem attempt_through (hes : ∀ e ∈ es, op.refuses (evaluate ctx e).value = false) :
    attempt ctx (.chain op (es.map some)) =
      ⟨.ok (es.foldl (fun acc e => op.join acc (evaluate ctx e).value) op.start),
        (es.map some).flatMap (slotEvents ctx)⟩ := by
  have hrun := run_through hes op.start 0 []
  rw [List.append_nil] at hrun
  rw [attempt, hrun]
  simp [operands, Operator.run]

/-- A chain that is stopped fails there, and does not look at the operands after the stop. -/
theorem attempt_stopped (hes : ∀ e ∈ es, op.refuses (evaluate ctx e).value = false) {x : Option Expr}
    (hx : stopsAt ctx op x = true) (after : List (Option Expr)) :
    attempt ctx (.chain op (es.map some ++ x :: after)) =
      ⟨.error (stopError op es.length x), (es.map some ++ [x]).flatMap (slotEvents ctx)⟩ := by
  rw [attempt, run_through hes]
  cases x with
  | none => simp [operands, operand_eq, Operator.run, stopError, slotEvents]
  | some e =>
    rw [run_refused hx]
    simp [stopError, slotEvents]

/-- A chain without a stop. -/
theorem attempt_of_stop?_eq_none {xs : List (Option Expr)} (h : stop? ctx op xs = none) :
    ∃ es : List Expr, xs = es.map some ∧
      attempt ctx (.chain op xs) =
        ⟨.ok (es.foldl (fun acc e => op.join acc (evaluate ctx e).value) op.start), xs.flatMap (slotEvents ctx)⟩ := by
  obtain ⟨es, rest, rfl, hes, hrest⟩ := exists_through ctx op xs
  cases rest with
  | nil =>
    rw [List.append_nil]
    exact ⟨es, rfl, attempt_through hes⟩
  | cons x after =>
    rw [stop?_stopped hes (hrest x rfl)] at h
    cases h

/-- A chain with a stop, whatever follows it. -/
theorem attempt_of_stop?_eq_some {xs : List (Option Expr)} {k : Nat} (h : stop? ctx op xs = some k) :
    ∃ x, xs[k]? = some x ∧
      attempt ctx (.chain op xs) = ⟨.error (stopError op k x), (xs.take (k + 1)).flatMap (slotEvents ctx)⟩ ∧
      ∀ others, attempt ctx (.chain op (xs.take (k + 1) ++ others)) = attempt ctx (.chain op xs) := by
  obtain ⟨es, rest, rfl, hes, hrest⟩ := exists_through ctx op xs
  cases rest with
  | nil =>
    rw [List.append_nil, stop?_through hes] at h
    cases h
  | cons x after =>
    have hx : stopsAt ctx op x = true := hrest x rfl
    obtain rfl : es.length = k := Option.some.inj ((stop?_stopped hes hx after).symm.trans h)
    have htake : (es.map some ++ x :: after).take (es.length + 1) = es.map some ++ [x] := by
      simp [List.take_append, List.take_of_length_le]
    have hchain := attempt_stopped hes hx after
    refine ⟨x, by simp, by rw [htake, hchain], ?_⟩
    intro others
    rw [htake, List.append_assoc, hchain]
    exact attempt_stopped hes hx others

/-! ## Divisions -/

/-- **Divisions from end to end.** A division without an operand that is absent or close to zero is one divided by its
operands, from left to right. Otherwise it fails at the first such operand: for want of it, or because it would divide
by zero at just that position. It evaluates the operands up to there and no others, so those behind may be anything at
all, and more of them do not change the failure. -/
theorem division_end_to_end (ctx : Context) (xs : List (Option Expr)) :
    let division := attempt ctx (.chain .division xs)
    (stop? ctx .division xs = none →
      ∃ es : List Expr, xs = es.map some ∧
        division.value = .ok ((es.map fun e => (evaluate ctx e).value).foldl (· / ·) 1) ∧
        division.events = xs.flatMap (slotEvents ctx)) ∧
      (∀ k, stop? ctx .division xs = some k →
        (xs[k]? = some none → division.value = .error (.missingOperand (.chain .division) .value)) ∧
        (∀ e, xs[k]? = some (some e) → division.value = .error (.divisionByZero k)) ∧
        division.events = (xs.take (k + 1)).flatMap (slotEvents ctx) ∧
        ∀ others, attempt ctx (.chain .division (xs.take (k + 1) ++ others)) = division) ∧
      ∀ error more, division.value = .error error → attempt ctx (.chain .division (xs ++ more)) = division := by
  intro division
  refine ⟨?_, ?_, ?_⟩
  · intro hnone
    obtain ⟨es, rfl, hdivision⟩ := attempt_of_stop?_eq_none hnone
    refine ⟨es, rfl, ?_, congrArg Traced.events hdivision⟩
    rw [List.foldl_map]
    exact congrArg Traced.value hdivision
  · intro k hk
    obtain ⟨x, hslot, hdivision, hothers⟩ := attempt_of_stop?_eq_some hk
    refine ⟨?_, ?_, congrArg Traced.events hdivision, hothers⟩
    · intro hnone
      obtain rfl : x = none := Option.some.inj (hslot.symm.trans hnone)
      exact congrArg Traced.value hdivision
    · intro e hsome
      obtain rfl : x = some e := Option.some.inj (hslot.symm.trans hsome)
      exact congrArg Traced.value hdivision
  · intro error more herror
    cases hstop : stop? ctx .division xs with
    | none =>
      obtain ⟨es, -, hdivision⟩ := attempt_of_stop?_eq_none hstop
      cases herror.symm.trans (congrArg Traced.value hdivision)
    | some k =>
      obtain ⟨x, -, -, hothers⟩ := attempt_of_stop?_eq_some hstop
      -- more operands are a change of those after the stop
      have hmore := hothers (xs.drop (k + 1) ++ more)
      rwa [← List.append_assoc, List.take_append_drop] at hmore

/-- Operands of which the second fails, and so is zero, before any other is found to be absent. -/
def hasty : List (Option Expr) :=
  [some (.constant 4), some (.chain .division [none]), none, some (.constant 0)]

theorem division_end_to_end_hasty :
    (attempt .empty (.chain .division hasty)).value = .error (.divisionByZero 1) ∧
      attempt .empty (.chain .division [some (.constant 4), some (.chain .division [none]), some .mastery]) =
        attempt .empty (.chain .division hasty) ∧
      attempt .empty (.chain .division (hasty ++ [none])) = attempt .empty (.chain .division hasty) ∧
      (attempt .empty (.chain .division [some (.constant 4), none, some (.constant 0)])).value =
        .error (.missingOperand (.chain .division) .value) ∧
      (attempt .empty (.chain .division [some (.constant 4), some (.constant 2)])).value = .ok (1 / 4 / 2) := by
  obtain ⟨-, hstopped, hmore⟩ := division_end_to_end .empty hasty
  obtain ⟨-, hzero, -, hothers⟩ := hstopped 1 rfl
  have hvalue := hzero (.chain .division [none]) rfl
  obtain ⟨-, hstopped', -⟩ := division_end_to_end .empty [some (.constant 4), none, some (.constant 0)]
  obtain ⟨hthrough, -, -⟩ := division_end_to_end .empty [some (.constant 4), some (.constant 2)]
  obtain ⟨es, hes, hquotient, -⟩ := hthrough rfl
  obtain rfl : [.constant 4, .constant 2] = es := (List.map_inj_right fun _ _ => Option.some.inj).1 hes
  exact ⟨hvalue, hothers [some .mastery], hmore _ [none] hvalue, (hstopped' 1 rfl).1 rfl, hquotient⟩

end Expr

end Formulary
