import Formulary.Proofs.Expr.Failures

/-!
# Where events come from

The trail of an evaluation is its log with the address of the node that each event comes from. Without the addresses it
is the log (`map_snd_trail`), and at the address of a failure stands the node that failed (`trail_located`).
-/

namespace Formulary

/-- The positions of operands on the way from the root of a tree to a node. -/
abbrev Address := List Nat

/-- Events in order, each with the address of the node that it comes from. -/
abbrev Trail := List (Address × Event)

/-- The trail of an operand, with addresses that start at the node above it. -/
def Trail.under (index : Nat) (t : Trail) : Trail :=
  t.map fun x => (index :: x.1, x.2)

theorem Trail.map_snd_under (index : Nat) (t : Trail) : (t.under index).map (·.2) = t.map (·.2) := by
  simp [Trail.under]

namespace Expr

/-! ## Nodes -/

/-- The operand slots of a node in their order. -/
def slots : Expr → List (Option Expr)
  | .chain _ xs | .extremum _ xs => xs
  | .power a b | .logarithmic a b => [a, b]
  | .exponential a => [a]
  | .clamp a b c => [a, b, c]
  | .constant _ | .euler | .coreStat _ | .derivedStat _ | .mastery => []

def at? : Expr → Address → Option Expr
  | e, [] => some e
  | e, index :: rest =>
    match e.slots[index]? with
    | some (some operand) => operand.at? rest
    | _ => none

/-! ## Trails -/

section
variable (ctx : Context)

def ownFailure (e : Expr) : Trail :=
  match (e.attempt ctx).value with
  | .ok _ => []
  | .error error => [([], .nodeFailed e error)]

mutual

/-- The events of an evaluation with their addresses. A node with fixed operands evaluates them only if none of
them is absent. -/
def trail : Expr → Trail
  | .chain op xs => trailChain op op.start 0 xs ++ ownFailure ctx (.chain op xs)
  | .extremum side xs => trailPresent side 0 xs ++ ownFailure ctx (.extremum side xs)
  | .power a b =>
    (if a.isSome ∧ b.isSome then trailSlot 0 a ++ trailSlot 1 b else []) ++ ownFailure ctx (.power a b)
  | .exponential a => trailSlot 0 a ++ ownFailure ctx (.exponential a)
  | .logarithmic a b =>
    (if a.isSome ∧ b.isSome then trailSlot 0 a ++ trailSlot 1 b else []) ++ ownFailure ctx (.logarithmic a b)
  | .clamp a b c =>
    (if a.isSome ∧ b.isSome ∧ c.isSome then trailSlot 0 a ++ (trailSlot 1 b ++ trailSlot 2 c) else []) ++
      ownFailure ctx (.clamp a b c)
  | .derivedStat stat =>
    (ctx.derivedStat stat).events.map (Prod.mk []) ++ ownFailure ctx (.derivedStat stat)
  | .constant x => ownFailure ctx (.constant x)
  | .euler => ownFailure ctx .euler
  | .coreStat stat => ownFailure ctx (.coreStat stat)
  | .mastery => ownFailure ctx .mastery

def trailSlot (index : Nat) : Option Expr → Trail
  | none => []
  | some e => (trail e).under index

/-- The trails of the values of a chain, up to the first one that is absent or refused. -/
def trailChain (op : Operator) : (value : Float) → (index : Nat) → List (Option Expr) → Trail
  | _, _, [] => []
  | _, _, none :: _ => []
  | value, index, some e :: xs =>
    (trail e).under index ++
      match op.apply? value (evaluate ctx e).value with
      | some value => trailChain op value (index + 1) xs
      | none => []

/-- The trails of the entries of a maximum or minimum, absent ones being skipped. -/
def trailPresent (side : Extremum) : (index : Nat) → List (Option Expr) → Trail
  | _, [] => []
  | index, none :: xs => ([], .operandSkipped side index) :: trailPresent side (index + 1) xs
  | index, some e :: xs => (trail e).under index ++ trailPresent side (index + 1) xs

end

/-! ## The trail is the log -/

theorem map_snd_ownFailure (e : Expr) (t : Trail) (h : t.map (·.2) = (e.attempt ctx).events) :
    (t ++ ownFailure ctx e).map (·.2) = (evaluate ctx e).events := by
  rw [List.map_append, h, evaluate, absorb, ownFailure]
  cases (e.attempt ctx).value with
  | ok value => simp
  | error error => rfl

/-- The check of the base comes after both operands and logs nothing. -/
theorem events_attempt_logarithmic (a b : Expr) :
    (attempt ctx (.logarithmic (some a) (some b))).events = (evaluate ctx a).events ++ (evaluate ctx b).events := by
  rw [attempt_logarithmic, Traced.events_bind, Traced.events_bind]
  cases checkedLog (evaluate ctx b).value (evaluate ctx a).value with
  | some value => exact congrArg _ (List.append_nil _)
  | none => exact congrArg _ (List.append_nil _)

mutual

/-- **The trail without its addresses is the log** of the evaluation. -/
theorem map_snd_trail : ∀ e : Expr, (trail ctx e).map (·.2) = (evaluate ctx e).events
  | .constant x => by
    rw [trail]
    exact map_snd_ownFailure ctx (.constant x) [] rfl
  | .euler => by
    rw [trail]
    exact map_snd_ownFailure ctx .euler [] rfl
  | .coreStat stat => by
    rw [trail]
    exact map_snd_ownFailure ctx (.coreStat stat) [] rfl
  | .mastery => by
    rw [trail]
    exact map_snd_ownFailure ctx .mastery [] rfl
  | .derivedStat stat => by
    rw [trail]
    apply map_snd_ownFailure
    rw [attempt, Traced.events_map, List.map_map]
    exact List.map_id _
  | .chain op xs => by
    rw [trail]
    apply map_snd_ownFailure
    exact map_snd_trailChain op xs op.start 0
  | .extremum side xs => by
    rw [trail]
    apply map_snd_ownFailure
    rw [attempt, Traced.events_map, Extremum.run, Traced.events_map]
    exact map_snd_trailPresent side xs 0
  | .exponential none => by
    rw [trail]
    exact map_snd_ownFailure ctx (.exponential none) _ rfl
  | .exponential (some a) => by
    have ha := map_snd_trail a
    rw [trail]
    apply map_snd_ownFailure
    rw [trailSlot, Trail.map_snd_under, ha]
    exact (List.append_nil _).symm
  | .power none b => by
    rw [trail]
    exact map_snd_ownFailure ctx (.power none b) _ (by simp; rfl)
  | .power (some a) none => by
    rw [trail]
    exact map_snd_ownFailure ctx (.power (some a) none) _ (by simp; rfl)
  | .power (some a) (some b) => by
    have ha := map_snd_trail a
    have hb := map_snd_trail b
    rw [trail]
    apply map_snd_ownFailure
    rw [if_pos ⟨rfl, rfl⟩, trailSlot, trailSlot, List.map_append, Trail.map_snd_under, Trail.map_snd_under, ha, hb]
    exact congrArg _ (List.append_nil _).symm
  | .logarithmic none b => by
    rw [trail]
    exact map_snd_ownFailure ctx (.logarithmic none b) _ (by simp; rfl)
  | .logarithmic (some a) none => by
    rw [trail]
    exact map_snd_ownFailure ctx (.logarithmic (some a) none) _ (by simp; rfl)
  | .logarithmic (some a) (some b) => by
    have ha := map_snd_trail a
    have hb := map_snd_trail b
    rw [trail]
    apply map_snd_ownFailure
    rw [if_pos ⟨rfl, rfl⟩, trailSlot, trailSlot, List.map_append, Trail.map_snd_under, Trail.map_snd_under, ha, hb,
      events_attempt_logarithmic]
  | .clamp none b c => by
    rw [trail]
    exact map_snd_ownFailure ctx (.clamp none b c) _ (by simp; rfl)
  | .clamp (some a) none c => by
    rw [trail]
    exact map_snd_ownFailure ctx (.clamp (some a) none c) _ (by simp; rfl)
  | .clamp (some a) (some b) none => by
    rw [trail]
    exact map_snd_ownFailure ctx (.clamp (some a) (some b) none) _ (by simp; rfl)
  | .clamp (some a) (some b) (some c) => by
    have ha := map_snd_trail a
    have hb := map_snd_trail b
    have hc := map_snd_trail c
    rw [trail]
    apply map_snd_ownFailure
    rw [if_pos ⟨rfl, rfl, rfl⟩, trailSlot, trailSlot, trailSlot, List.map_append, List.map_append,
      Trail.map_snd_under, Trail.map_snd_under, Trail.map_snd_under, ha, hb, hc]
    exact congrArg _ (congrArg _ (List.append_nil _).symm)

theorem map_snd_trailChain (op : Operator) : ∀ (xs : List (Option Expr)) (value : Float) (index : Nat),
    (trailChain ctx op value index xs).map (·.2) = (op.run value index (operands ctx xs)).events
  | [], value, index => by
    rw [trailChain]
    rfl
  | none :: xs, value, index => by
    rw [trailChain]
    rfl
  | some e :: xs, value, index => by
    have he := map_snd_trail e
    rw [trailChain, List.map_append, Trail.map_snd_under, he, operands, operand, Operator.run]
    show _ = (evaluate ctx e).events ++ _
    congr 1
    show _ = Traced.events (match op.apply? value (evaluate ctx e).value with
      | some value => op.run value (index + 1) (operands ctx xs)
      | none => pure (.error (.divisionByZero index)))
    cases op.apply? value (evaluate ctx e).value with
    | some value => exact map_snd_trailChain op xs value (index + 1)
    | none => rfl

theorem map_snd_trailPresent (side : Extremum) : ∀ (xs : List (Option Expr)) (index : Nat),
    (trailPresent ctx side index xs).map (·.2) = (side.present index (operands ctx xs)).events
  | [], index => by
    rw [trailPresent]
    rfl
  | none :: xs, index => by
    rw [trailPresent, List.map_cons, map_snd_trailPresent side xs (index + 1)]
    rfl
  | some e :: xs, index => by
    have he := map_snd_trail e
    rw [trailPresent, List.map_append, Trail.map_snd_under, he, map_snd_trailPresent side xs (index + 1), operands,
      operand, Extremum.present]
    show _ = (evaluate ctx e).events ++ (_ ++ [])
    rw [List.append_nil]

end

/-! ## Addresses of failures -/

/-- At the address of every failure of a trail stands the node that failed. -/
def Located (e : Expr) (t : Trail) : Prop :=
  ∀ address node error, (address, .nodeFailed node error) ∈ t → e.at? address = some node

theorem located_nil (e : Expr) : Located e [] := by
  simp [Located]

theorem Located.append {e : Expr} {t u : Trail} (ht : Located e t) (hu : Located e u) : Located e (t ++ u) := by
  intro address node error h
  rcases List.mem_append.1 h with h | h
  · exact ht address node error h
  · exact hu address node error h

theorem Located.under {e a : Expr} {t : Trail} {index : Nat} (ha : e.slots[index]? = some (some a))
    (h : Located a t) : Located e (t.under index) := by
  intro address node error hmem
  obtain ⟨⟨rest, event⟩, hrest, heq⟩ := List.mem_map.1 hmem
  obtain ⟨rfl, rfl⟩ := Prod.mk.inj heq
  rw [at?, ha]
  exact h rest node error hrest

theorem located_ownFailure (e : Expr) : Located e (ownFailure ctx e) := by
  intro address node error h
  unfold ownFailure at h
  split at h
  · exact absurd h List.not_mem_nil
  · obtain ⟨rfl, heq⟩ := Prod.mk.inj (List.mem_singleton.1 h)
    obtain ⟨rfl, -⟩ := Event.nodeFailed.inj heq
    rfl

theorem located_derivedStat (e : Expr) (stat : DerivedStat) :
    Located e ((ctx.derivedStat stat).events.map (Prod.mk [])) := by
  intro address node error h
  obtain ⟨event, hevent, heq⟩ := List.mem_map.1 h
  obtain ⟨-, rfl⟩ := Prod.mk.inj heq
  have hfailures : (⟨node, error⟩ : Failure) ∈ (ctx.derivedStat stat).failures := Traced.mem_failures.2 hevent
  rw [Traced.failures_derivedStat] at hfailures
  exact absurd hfailures List.not_mem_nil

mutual

/-- **Every failure in a trail has the address of the node that failed.** -/
theorem trail_located : ∀ e : Expr, Located e (trail ctx e)
  | .constant x => by
    rw [trail]
    exact located_ownFailure ctx _
  | .euler => by
    rw [trail]
    exact located_ownFailure ctx _
  | .coreStat stat => by
    rw [trail]
    exact located_ownFailure ctx _
  | .mastery => by
    rw [trail]
    exact located_ownFailure ctx _
  | .derivedStat stat => by
    rw [trail]
    exact (located_derivedStat ctx _ stat).append (located_ownFailure ctx _)
  | .chain op xs => by
    rw [trail]
    refine (trailChain_located op xs op.start 0 ?_).append (located_ownFailure ctx _)
    intro i
    rw [Nat.zero_add, slots]
  | .extremum side xs => by
    rw [trail]
    refine (trailPresent_located side xs 0 ?_).append (located_ownFailure ctx _)
    intro i
    rw [Nat.zero_add, slots]
  | .exponential a => by
    rw [trail]
    exact (trailSlot_located a rfl).append (located_ownFailure ctx _)
  | .power a b => by
    rw [trail]
    refine Located.append ?_ (located_ownFailure ctx _)
    split
    · exact (trailSlot_located a rfl).append (trailSlot_located b rfl)
    · exact located_nil _
  | .logarithmic a b => by
    rw [trail]
    refine Located.append ?_ (located_ownFailure ctx _)
    split
    · exact (trailSlot_located a rfl).append (trailSlot_located b rfl)
    · exact located_nil _
  | .clamp a b c => by
    rw [trail]
    refine Located.append ?_ (located_ownFailure ctx _)
    split
    · exact (trailSlot_located a rfl).append ((trailSlot_located b rfl).append (trailSlot_located c rfl))
    · exact located_nil _

theorem trailSlot_located {e : Expr} {index : Nat} : ∀ x : Option Expr, e.slots[index]? = some x →
    Located e (trailSlot ctx index x)
  | none, _ => by
    rw [trailSlot]
    exact located_nil e
  | some a, h => by
    rw [trailSlot]
    exact (trail_located a).under h

theorem trailChain_located {e : Expr} (op : Operator) : ∀ (xs : List (Option Expr)) (value : Float) (index : Nat),
    (∀ i, e.slots[index + i]? = xs[i]?) → Located e (trailChain ctx op value index xs)
  | [], value, index, _ => by
    rw [trailChain]
    exact located_nil e
  | none :: xs, value, index, _ => by
    rw [trailChain]
    exact located_nil e
  | some a :: xs, value, index, h => by
    rw [trailChain]
    refine ((trail_located a).under (h 0)).append ?_
    cases op.apply? value (evaluate ctx a).value with
    | none => exact located_nil e
    | some value =>
      apply trailChain_located op xs value (index + 1)
      intro i
      rw [Nat.add_assoc, Nat.add_comm 1]
      exact h (i + 1)

theorem trailPresent_located {e : Expr} (side : Extremum) : ∀ (xs : List (Option Expr)) (index : Nat),
    (∀ i, e.slots[index + i]? = xs[i]?) → Located e (trailPresent ctx side index xs)
  | [], index, _ => by
    rw [trailPresent]
    exact located_nil e
  | none :: xs, index, h => by
    have hskip : Located e [([], .operandSkipped side index)] := by simp [Located]
    rw [trailPresent]
    refine hskip.append (trailPresent_located side xs (index + 1) ?_)
    intro i
    rw [Nat.add_assoc, Nat.add_comm 1]
    exact h (i + 1)
  | some a :: xs, index, h => by
    rw [trailPresent]
    refine ((trail_located a).under (h 0)).append (trailPresent_located side xs (index + 1) ?_)
    intro i
    rw [Nat.add_assoc, Nat.add_comm 1]
    exact h (i + 1)

end

end

end Expr

end Formulary
