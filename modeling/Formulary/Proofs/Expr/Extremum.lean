import Formulary.Proofs.Expr.Value
import Formulary.Proofs.Numeric.Extremes

/-!
# Maximum and minimum

But for the warnings a gap makes no difference to a maximum or minimum (`entriesLog_parts`, `entriesLog_insert`). What
it folds is an extreme of the values (`Extremum.isExtreme_among`), so the order of the entries makes none either. All of
this is put together in `extremum_ignores_gaps`.
-/

namespace Formulary.Expr
variable (ctx : Context) (side : Extremum)

/-! ## Values and events of entries -/

def presentValues (xs : List (Option Expr)) : List Float :=
  xs.reduceOption.map fun e => (evaluate ctx e).value

def presentEvents (xs : List (Option Expr)) : List Event :=
  xs.reduceOption.flatMap fun e => (evaluate ctx e).events

/-- The warnings of those entries that are not there, the first entry standing at `start`. -/
def skipEvents (start : Nat) (xs : List (Option Expr)) : List Event :=
  ((xs.zipIdx start).filter (·.1.isNone)).map fun entry => .operandSkipped side entry.2

/-- What an entry leaves in the log at its place. -/
def entryEvents : Option Expr × Nat → List Event
  | (none, index) => [.operandSkipped side index]
  | (some e, _) => (evaluate ctx e).events

/-- What entries leave in the log, the first one standing at `start`. -/
def entriesLog (start : Nat) (xs : List (Option Expr)) : List Event :=
  (xs.zipIdx start).flatMap (entryEvents ctx side)

section
variable {ctx side} {start : Nat} {xs : List (Option Expr)}

theorem presentValues_some {e : Expr} : presentValues ctx (some e :: xs) =
    (evaluate ctx e).value :: presentValues ctx xs := rfl

theorem presentValues_append (before after : List (Option Expr)) :
    presentValues ctx (before ++ after) = presentValues ctx before ++ presentValues ctx after := by
  rw [presentValues, List.reduceOption_append, List.map_append]
  rfl

theorem presentEvents_some {e : Expr} : presentEvents ctx (some e :: xs) =
    (evaluate ctx e).events ++ presentEvents ctx xs := rfl

theorem entriesLog_none : entriesLog ctx side start (none :: xs) =
    .operandSkipped side start :: entriesLog ctx side (start + 1) xs := rfl

theorem entriesLog_some {e : Expr} : entriesLog ctx side start (some e :: xs) =
    (evaluate ctx e).events ++ entriesLog ctx side (start + 1) xs := rfl

theorem entriesLog_append (before after : List (Option Expr)) : entriesLog ctx side start (before ++ after) =
    entriesLog ctx side start before ++ entriesLog ctx side (start + before.length) after := by
  rw [entriesLog, List.zipIdx_append, List.flatMap_append]
  rfl

/-- One gap more is one warning more, and moves the places of the entries after it. -/
theorem entriesLog_insert (before after : List (Option Expr)) : entriesLog ctx side 0 (before ++ none :: after) =
    entriesLog ctx side 0 before ++
      .operandSkipped side before.length :: entriesLog ctx side (before.length + 1) after := by
  rw [entriesLog_append, entriesLog_none, Nat.zero_add]

/-- Places are not told by messages. -/
theorem messages_entriesLog (start other : Nat) (xs : List (Option Expr)) :
    (entriesLog ctx side start xs).map Event.message = (entriesLog ctx side other xs).map Event.message := by
  induction xs generalizing start other with
  | nil => rfl
  | cons x xs ih =>
    cases x with
    | none =>
      rw [entriesLog_none, entriesLog_none, List.map_cons, List.map_cons, ih]
      rfl
    | some e => rw [entriesLog_some, entriesLog_some, List.map_append, List.map_append, ih]

/-- One gap more is one warning more, by its message too. -/
theorem count_messages_insert (before after : List (Option Expr)) :
    ((entriesLog ctx side 0 (before ++ none :: after)).map Event.message).count "skipping absent operand" =
      ((entriesLog ctx side 0 (before ++ after)).map Event.message).count "skipping absent operand" + 1 := by
  have hmessage : (Event.operandSkipped side before.length).message = "skipping absent operand" := rfl
  rw [entriesLog_insert, entriesLog_append, List.map_append, List.map_append, List.map_cons, hmessage,
    messages_entriesLog _ (0 + before.length) after, List.count_append, List.count_append, List.count_cons_self,
    Nat.add_assoc]

/-- The log is made of what the entries log and of the warnings, both in their order. -/
theorem entriesLog_parts (ctx : Context) (side : Extremum) (start : Nat) (xs : List (Option Expr)) :
    (presentEvents ctx xs).Sublist (entriesLog ctx side start xs) ∧
    (skipEvents side start xs).Sublist (entriesLog ctx side start xs) ∧
    (entriesLog ctx side start xs).Perm (presentEvents ctx xs ++ skipEvents side start xs) := by
  induction xs generalizing start with
  | nil => exact ⟨.slnil, .slnil, .nil⟩
  | cons x xs ih =>
    obtain ⟨hpresent, hskip, hperm⟩ := ih (start + 1)
    cases x with
    | none =>
      refine ⟨hpresent.cons _, hskip.cons_cons _, ?_⟩
      exact (hperm.cons _).trans List.perm_middle.symm
    | some e =>
      rw [presentEvents_some, entriesLog_some]
      refine ⟨hpresent.append_left _, hskip.trans (List.sublist_append_right _ _), ?_⟩
      rw [List.append_assoc]
      exact hperm.append_left _

/-- Entries are evaluated in their order, and each gap leaves a warning at its place. -/
theorem evaluatePresent_eq :
    evaluatePresent ctx side start xs = ⟨presentValues ctx xs, entriesLog ctx side start xs⟩ := by
  induction xs generalizing start with
  | nil => rfl
  | cons x xs ih =>
    cases x with
    | none =>
      rw [evaluatePresent_none, ih]
      rfl
    | some e =>
      rw [evaluatePresent_some, ih, entriesLog_some, presentValues_some]
      simp [bind, Functor.map]

/-! ## The node -/

/-- A maximum or minimum has a value, and logs nothing but what its entries leave. -/
theorem evaluate_extremum_eq : evaluate ctx (.extremum side xs) =
    ⟨side.among (presentValues ctx xs), entriesLog ctx side 0 xs⟩ := by
  rw [evaluate_extremum, evaluatePresent_eq]
  simp [Functor.map]

theorem attempt_extremum : attempt ctx (.extremum side xs) = .ok <$> evaluate ctx (.extremum side xs) := by
  rw [evaluate_extremum]
  rfl

/-- Gaps are not looked at by validation. -/
theorem validatePresent_eq : validatePresent xs = xs.reduceOption.forM validate := by
  induction xs with
  | nil => rfl
  | cons x xs ih =>
    cases x with
    | none => rw [validatePresent, List.reduceOption_cons_of_none, ih]
    | some e =>
      rw [validatePresent, List.reduceOption_cons_of_some, ih]
      rfl

/-- The entries that are there determine the value. -/
theorem value_extremum_congr {ys : List (Option Expr)} (h : ys.reduceOption = xs.reduceOption) :
    (evaluate ctx (.extremum side ys)).value = (evaluate ctx (.extremum side xs)).value := by
  rw [evaluate_extremum_eq, evaluate_extremum_eq, presentValues, presentValues, h]

/-- The entries that are there determine the outcome of validation. -/
theorem validate_extremum_congr {ys : List (Option Expr)} (h : ys.reduceOption = xs.reduceOption) :
    validate (.extremum side ys) = validate (.extremum side xs) := by
  rw [validate, validate, validatePresent_eq, validatePresent_eq, h]

theorem reduceOption_insert_none (before after : List (Option Expr)) :
    (before ++ none :: after).reduceOption = (before ++ after).reduceOption := by
  rw [List.reduceOption_append, List.reduceOption_cons_of_none, ← List.reduceOption_append]

/-- A node among the entries of another one of the same kind may be replaced by its own entries. -/
theorem sameNumber_splice (before after : List (Option Expr)) (h : xs.reduceOption ≠ []) :
    SameNumber (evaluate ctx (.extremum side (before ++ some (.extremum side xs) :: after))).value
      (evaluate ctx (.extremum side (before ++ xs ++ after))).value := by
  rw [evaluate_extremum_eq, evaluate_extremum_eq]
  simp only [presentValues_append, presentValues_some, evaluate_extremum_eq]
  exact Extremum.sameNumber_among_splice side _ _ (mt List.map_eq_nil_iff.1 h)

end

/-- **Maximum and minimum ignore gaps and nothing else.** Such a node always has a value: the values of the entries that
are there, folded from the left, or zero if there are none. Its log consists of what these entries log, in their order,
and of one warning at the place of each gap. So gaps change neither the value, nor the outcome of validation, nor what
the entries log, and one gap more is one warning more, with its position in the whole list.

The value, if there are any, is one of theirs, bounds all those that are no NaN, and is a NaN only if all are. It is the
same number for the entries in any other order, and for the entries of a node of the same kind, unless all of them are
gaps, in place of that node. -/
theorem extremum_ignores_gaps (ctx : Context) (side : Extremum) (xs : List (Option Expr)) :
    let node := Expr.extremum side xs
    let value := (evaluate ctx node).value
    let log := (evaluate ctx node).events
    let values := presentValues ctx xs
    attempt ctx node = .ok <$> evaluate ctx node ∧
      (values = [] → value = 0) ∧
      (∀ first rest, values = first :: rest → value = rest.foldl side.pick first) ∧
      log = xs.zipIdx.flatMap (entryEvents ctx side) ∧
      (presentEvents ctx xs).Sublist log ∧
      (skipEvents side 0 xs).Sublist log ∧
      log.Perm (presentEvents ctx xs ++ skipEvents side 0 xs) ∧
      (∀ index, (Event.operandSkipped side index).level = .warn ∧
        (Event.operandSkipped side index).message = "skipping absent operand" ∧
        ("index", Field.index index) ∈ (Event.operandSkipped side index).fields) ∧
      (∀ ys, ys.reduceOption = xs.reduceOption →
        (evaluate ctx (.extremum side ys)).value = value ∧ validate (.extremum side ys) = validate node ∧
          presentEvents ctx ys = presentEvents ctx xs) ∧
      (∀ before after, xs = before ++ after →
        let gapped := evaluate ctx (.extremum side (before ++ none :: after))
        gapped.value = value ∧
          log = entriesLog ctx side 0 before ++ entriesLog ctx side before.length after ∧
          gapped.events = entriesLog ctx side 0 before ++
            .operandSkipped side before.length :: entriesLog ctx side (before.length + 1) after ∧
          (gapped.events.map Event.message).count "skipping absent operand" =
            (log.map Event.message).count "skipping absent operand" + 1) ∧
      (values ≠ [] → value ∈ values ∧ (∀ v ∈ values, v.isNaN = false → side.Bounds value v) ∧
        (value.isNaN = true → ∀ v ∈ values, v.isNaN = true)) ∧
      (∀ ys, xs.Perm ys → SameNumber value (evaluate ctx (.extremum side ys)).value) ∧
      ∀ before inner after, xs = before ++ some (.extremum side inner) :: after → inner.reduceOption ≠ [] →
        SameNumber value (evaluate ctx (.extremum side (before ++ inner ++ after))).value := by
  intro node value log values
  have hvalue : value = side.among values := congrArg Traced.value evaluate_extremum_eq
  have hlog : log = entriesLog ctx side 0 xs := congrArg Traced.events evaluate_extremum_eq
  obtain ⟨hpresent, hskip, hperm⟩ := entriesLog_parts ctx side 0 xs
  rw [← hlog] at hpresent hskip hperm
  refine ⟨attempt_extremum, ?_, ?_, hlog, hpresent, hskip, hperm, fun index => ⟨rfl, rfl, by simp [Event.fields]⟩,
    ?_, ?_, ?_, ?_, ?_⟩
  · intro hnil
    rw [hvalue, hnil]
    rfl
  · intro first rest hcons
    rw [hvalue, hcons]
    rfl
  · intro ys hys
    exact ⟨value_extremum_congr hys, validate_extremum_congr hys, by rw [presentEvents, hys, presentEvents]⟩
  · rintro before after rfl gapped
    have hgapped : gapped.events = entriesLog ctx side 0 (before ++ none :: after) :=
      congrArg Traced.events evaluate_extremum_eq
    refine ⟨value_extremum_congr (reduceOption_insert_none before after), ?_,
      hgapped.trans (entriesLog_insert before after), ?_⟩
    · rw [hlog, entriesLog_append, Nat.zero_add]
    · rw [hgapped, hlog]
      exact count_messages_insert before after
  · intro hne
    have hextreme := Extremum.isExtreme_among side hne
    rw [hvalue]
    exact ⟨hextreme.mem, hextreme.bounds, hextreme.all_isNaN⟩
  · intro ys hys
    rw [hvalue, evaluate_extremum_eq]
    exact Extremum.sameNumber_among_of_perm side ((hys.filterMap id).map _)
  · rintro before inner after rfl hinner
    exact sameNumber_splice before after hinner

/-- Three peaks, one of them in a range of its own, and a gap in either. -/
def peaks : List (Option Expr) :=
  [some (.constant 1), none, some (.extremum .max [none, some (.constant 3)]), some (.constant 2)]

theorem extremum_ignores_gaps_peaks :
    (evaluate .empty (.extremum .max peaks)).value = larger (larger 1 3) 2 ∧
      skipEvents .max 0 peaks = [.operandSkipped .max 1] ∧
      (evaluate .empty (.extremum .max (peaks ++ [none]))).value = (evaluate .empty (.extremum .max peaks)).value ∧
      ((evaluate .empty (.extremum .max (peaks ++ [none]))).events.map Event.message).count
        "skipping absent operand" = 3 ∧
      (evaluate .empty (.extremum .max peaks)).value.isNaN = false ∧
      SameNumber (evaluate .empty (.extremum .max peaks)).value (evaluate .empty (.extremum .max peaks.reverse)).value ∧
      SameNumber (evaluate .empty (.extremum .max peaks)).value
        (evaluate .empty (.extremum .max
          [some (.constant 1), none, none, some (.constant 3), some (.constant 2)])).value ∧
      (evaluate .empty (.extremum .min [none, none])).value = 0 := by
  obtain ⟨-, -, hfold, -, -, -, -, -, hgaps, hinsert, hextreme, hperm, hsplice⟩ :=
    extremum_ignores_gaps .empty .max peaks
  obtain ⟨hvalue, -, -, hcount⟩ := hinsert peaks [] (List.append_nil _).symm
  obtain ⟨-, hempty, -⟩ := extremum_ignores_gaps .empty .min [none, none]
  obtain ⟨-, -, hnan⟩ := hextreme (List.cons_ne_nil _ _)
  refine ⟨hfold 1 [3, 2] ?_, rfl, hvalue, hcount.trans ?_, ?_, hperm _ peaks.reverse_perm.symm, ?_, hempty rfl⟩
  · rfl
  · decide +kernel
  · by_contra hvalue
    have hone : (1 : Float).isNaN = true := hnan (by simpa using hvalue) 1 (List.mem_cons_self ..)
    exact absurd hone (by decide +kernel)
  · exact hsplice [some (.constant 1), none] [none, some (.constant 3)] [some (.constant 2)] rfl (List.cons_ne_nil _ _)

end Formulary.Expr
