import Formulary.Proofs.Expr.Trail

/-!
# The log in post-order

The trail of an evaluation lists what the nodes that it reaches (`Reaches`) log of their own (`Logs`), each event at its
place. The places are in post-order, operands before their node and earlier operands before later ones, and no other
list has them so: `log_is_post_order`.
-/

namespace Formulary

/-! ## Places -/

/-- Post-order: what is below a node comes before it, and what is below an earlier operand before what is below a
later one. -/
def Address.Before : Address → Address → Prop
  | [], _ => False
  | _ :: _, [] => True
  | i :: p, j :: q => i < j ∨ i = j ∧ Before p q

namespace Address

theorem Before.irrefl : ∀ p : Address, ¬ Before p p
  | [], h => h
  | _ :: _, .inl h => Nat.lt_irrefl _ h
  | _ :: p, .inr h => irrefl p h.2

theorem Before.asymm : ∀ {p q : Address}, Before p q → ¬ Before q p
  | _ :: _, [], _, h => h
  | _ :: _, _ :: _, .inl h, .inl h' => Nat.lt_asymm h h'
  | _ :: _, _ :: _, .inl h, .inr h' => absurd h (h'.1 ▸ Nat.lt_irrefl _)
  | _ :: _, _ :: _, .inr h, .inl h' => absurd h' (h.1 ▸ Nat.lt_irrefl _)
  | _ :: _, _ :: _, .inr h, .inr h' => h.2.asymm h'.2

end Address

namespace Trail

/-- Where an event belongs among those of the tree: a skipped entry at its own position below its node, any other
event at its node. -/
def place : Address × Event → Address
  | (address, .operandSkipped _ index) => address ++ [index]
  | (address, _) => address

theorem place_cons (index : Nat) (address : Address) (event : Event) :
    place (index :: address, event) = index :: place (address, event) := by
  cases event <;> rfl

def Before (x y : Address × Event) : Prop :=
  (place x).Before (place y)

def InPostOrder (t : Trail) : Prop :=
  t.Pairwise Before

/-- The trail is in post-order and comes from operands that stand at `index` or later. -/
structure From (index : Nat) (t : Trail) : Prop where
  inPostOrder : t.InPostOrder
  below : ∀ x ∈ t, ∃ i rest, place x = i :: rest ∧ index ≤ i

theorem from_nil (index : Nat) : From index [] :=
  ⟨List.Pairwise.nil, by simp⟩

theorem From.ite {index : Nat} {t : Trail} {p : Prop} [Decidable p] (ht : t.From index) :
    From index (if p then t else []) := by
  split
  · exact ht
  · exact from_nil index

/-- Within an operand the order is its own. -/
theorem InPostOrder.under {t : Trail} (ht : t.InPostOrder) (index : Nat) : (t.under index).InPostOrder := by
  refine List.Pairwise.map _ ?_ ht
  intro x y h
  rw [Before, place_cons, place_cons]
  exact .inr ⟨rfl, h⟩

/-- An operand comes before the operands after it. -/
theorem From.under_append {index : Nat} {t u : Trail} (ht : t.InPostOrder) (hu : u.From (index + 1)) :
    From index (t.under index ++ u) := by
  have hplace : ∀ x ∈ t.under index, ∃ rest, place x = index :: rest := by
    intro x hx
    obtain ⟨y, -, rfl⟩ := List.mem_map.1 hx
    exact ⟨_, place_cons index y.1 y.2⟩
  constructor
  · refine List.pairwise_append.2 ⟨ht.under index, hu.inPostOrder, ?_⟩
    intro x hx y hy
    obtain ⟨rest, hrest⟩ := hplace x hx
    obtain ⟨i, rest', hrest', hi⟩ := hu.below y hy
    rw [Before, hrest, hrest']
    exact .inl hi
  · intro x hx
    rcases List.mem_append.1 hx with hx | hx
    · obtain ⟨rest, hrest⟩ := hplace x hx
      exact ⟨index, rest, hrest, Nat.le_refl index⟩
    · obtain ⟨i, rest, hrest, hi⟩ := hu.below x hx
      exact ⟨i, rest, hrest, Nat.le_of_succ_le hi⟩

/-- A skipped entry comes before the entries after it. -/
theorem From.skip_cons {index : Nat} {u : Trail} (side : Extremum) (hu : u.From (index + 1)) :
    From index (([], .operandSkipped side index) :: u) := by
  constructor
  · refine List.Pairwise.cons ?_ hu.inPostOrder
    intro y hy
    obtain ⟨i, rest, hrest, hi⟩ := hu.below y hy
    rw [Before, hrest]
    exact .inl hi
  · intro x hx
    rcases List.mem_cons.1 hx with rfl | hx
    · exact ⟨index, [], rfl, Nat.le_refl index⟩
    · obtain ⟨i, rest, hrest, hi⟩ := hu.below x hx
      exact ⟨i, rest, hrest, Nat.le_of_succ_le hi⟩

end Trail

namespace Expr

section
variable (ctx : Context)

/-! ## Reached nodes and what they log -/

/-- Whether a node gets to the operand at a position: a chain to one before which no operand is absent and, in a
division, none is close to zero; a maximum or minimum to every operand; any other node to all of its operands or,
if one is absent, to none. -/
def Evaluates : Expr → Nat → Prop
  | .chain op xs, index => ∀ i < index, ∃ x, xs[i]? = some (some x) ∧
      (op = .division → approximately (evaluate ctx x).value 0 = false)
  | .extremum .., _ => True
  | e, _ => none ∉ e.slots

/-- The nodes below a tree that its evaluation reaches, by their addresses. -/
inductive Reaches : Expr → Address → Expr → Prop where
  | root (e : Expr) : Reaches e [] e
  | operand {e a node : Expr} {index : Nat} {rest : Address} : e.slots[index]? = some (some a) →
      Evaluates ctx e index → Reaches a rest node → Reaches e (index :: rest) node

/-- The events of a node itself: that it failed, with its error; that it skipped an entry, at each position where
one is absent; and that its derived stat divided by zero. -/
inductive Logs : Expr → Event → Prop where
  | failure {node : Expr} {error : FormulaError} : (node.attempt ctx).value = .error error →
      Logs node (.nodeFailed node error)
  | skip {side : Extremum} {xs : List (Option Expr)} {index : Nat} : xs[index]? = some none →
      Logs (.extremum side xs) (.operandSkipped side index)
  | division {stat : DerivedStat} {derived : DerivedStatId} {core : StatId} :
      .statDividedByZero derived core ∈ (ctx.derivedStat stat).events →
      Logs (.derivedStat stat) (.statDividedByZero derived core)

theorem reaches_nil_iff {e node : Expr} : Reaches ctx e [] node ↔ node = e := by
  constructor
  · intro h
    cases h
    rfl
  · rintro rfl
    exact .root node

theorem reaches_cons_iff {e node : Expr} {index : Nat} {rest : Address} :
    Reaches ctx e (index :: rest) node ↔
      ∃ a, e.slots[index]? = some (some a) ∧ Evaluates ctx e index ∧ Reaches ctx a rest node := by
  constructor
  · intro h
    cases h with
    | operand hslot hevaluates hrest => exact ⟨_, hslot, hevaluates, hrest⟩
  · rintro ⟨a, hslot, hevaluates, hrest⟩
    exact .operand hslot hevaluates hrest

/-- An address leads to one node. -/
theorem Reaches.at?_eq {e node : Expr} {address : Address} (h : Reaches ctx e address node) :
    e.at? address = some node := by
  induction h with
  | root e => rfl
  | operand hslot _ _ ih =>
    rw [at?, hslot]
    exact ih

/-! ## Derived stats -/

theorem ownFailure_derivedStat (stat : DerivedStat) : ownFailure ctx (.derivedStat stat) = [] := by
  rw [ownFailure, attempt, Traced.value_map]

theorem ownFailure_extremum (side : Extremum) (xs : List (Option Expr)) : ownFailure ctx (.extremum side xs) = [] := by
  rw [ownFailure, attempt, Traced.value_map]

/-! ## Order -/

/-- A node comes after its operands. -/
theorem inPostOrder_append_ownFailure {index : Nat} {t : Trail} (e : Expr) (ht : t.From index) :
    (t ++ ownFailure ctx e).InPostOrder := by
  unfold ownFailure
  split
  · rw [List.append_nil]
    exact ht.inPostOrder
  · refine List.pairwise_append.2 ⟨ht.inPostOrder, List.pairwise_singleton _ _, ?_⟩
    intro x hx y hy
    obtain rfl := List.mem_singleton.1 hy
    obtain ⟨i, rest, hrest, -⟩ := ht.below x hx
    rw [Trail.Before, hrest]
    trivial

theorem inPostOrder_ownFailure (e : Expr) : (ownFailure ctx e).InPostOrder :=
  inPostOrder_append_ownFailure ctx e (Trail.from_nil 0)

mutual

/-- **A trail is in post-order.** -/
theorem trail_inPostOrder : ∀ e : Expr, (trail ctx e).InPostOrder
  | .constant _ | .euler | .coreStat _ | .mastery => by
    rw [trail]
    exact inPostOrder_ownFailure ctx _
  | .derivedStat stat => by
    rw [trail, ownFailure_derivedStat, List.append_nil]
    rcases ctx.events_derivedStat stat with h | ⟨derived, core, h⟩
    · rw [h]
      exact List.Pairwise.nil
    · rw [h]
      exact List.pairwise_singleton _ _
  | .chain op xs => by
    rw [trail]
    exact inPostOrder_append_ownFailure ctx _ (trailChain_from op xs op.start 0)
  | .extremum side xs => by
    rw [trail]
    exact inPostOrder_append_ownFailure ctx _ (trailPresent_from side xs 0)
  | .exponential a => by
    have ha := trailSlot_append_from a (Trail.from_nil 1)
    rw [List.append_nil] at ha
    rw [trail]
    exact inPostOrder_append_ownFailure ctx _ ha
  | .power a b | .logarithmic a b => by
    have hb := trailSlot_append_from b (Trail.from_nil 2)
    rw [List.append_nil] at hb
    rw [trail]
    exact inPostOrder_append_ownFailure ctx _ (trailSlot_append_from a hb).ite
  | .clamp a b c => by
    have hc := trailSlot_append_from c (Trail.from_nil 3)
    rw [List.append_nil] at hc
    rw [trail]
    exact inPostOrder_append_ownFailure ctx _ (trailSlot_append_from a (trailSlot_append_from b hc)).ite

theorem trailSlot_append_from {index : Nat} {u : Trail} : ∀ x : Option Expr, u.From (index + 1) →
    Trail.From index (trailSlot ctx index x ++ u)
  | none, hu => by
    rw [trailSlot]
    exact Trail.From.under_append List.Pairwise.nil hu
  | some a, hu => by
    rw [trailSlot]
    exact Trail.From.under_append (trail_inPostOrder a) hu

theorem trailChain_from (op : Operator) : ∀ (xs : List (Option Expr)) (value : Float) (index : Nat),
    (trailChain ctx op value index xs).From index
  | [], value, index => by
    rw [trailChain]
    exact Trail.from_nil index
  | none :: xs, value, index => by
    rw [trailChain]
    exact Trail.from_nil index
  | some a :: xs, value, index => by
    rw [trailChain]
    refine Trail.From.under_append (trail_inPostOrder a) ?_
    cases op.apply? value (evaluate ctx a).value with
    | none => exact Trail.from_nil _
    | some value => exact trailChain_from op xs value (index + 1)

theorem trailPresent_from (side : Extremum) : ∀ (xs : List (Option Expr)) (index : Nat),
    (trailPresent ctx side index xs).From index
  | [], index => by
    rw [trailPresent]
    exact Trail.from_nil index
  | none :: xs, index => by
    rw [trailPresent]
    exact (trailPresent_from side xs (index + 1)).skip_cons side
  | some a :: xs, index => by
    rw [trailPresent]
    exact Trail.From.under_append (trail_inPostOrder a) (trailPresent_from side xs (index + 1))

end

/-! ## Events of a trail -/

theorem mem_ownFailure {e : Expr} {address : Address} {event : Event} : (address, event) ∈ ownFailure ctx e ↔
    address = [] ∧ ∃ error, event = .nodeFailed e error ∧ (e.attempt ctx).value = .error error := by
  unfold ownFailure
  split
  · next value h => simp [h]
  · next error h => simp [h]

theorem mem_under {index : Nat} {t : Trail} {address : Address} {event : Event} : (address, event) ∈ t.under index ↔
    ∃ rest, address = index :: rest ∧ (rest, event) ∈ t := by
  constructor
  · intro h
    obtain ⟨⟨rest, event'⟩, hmem, heq⟩ := List.mem_map.1 h
    obtain ⟨rfl, rfl⟩ := Prod.mk.inj heq
    exact ⟨rest, rfl, hmem⟩
  · rintro ⟨rest, rfl, hmem⟩
    exact List.mem_map_of_mem hmem

/-- An event of one of some operands, the first of which stands at `index`. -/
def FromOperand (index : Nat) (xs : List (Option Expr)) (address : Address) (event : Event) : Prop :=
  ∃ i rest a, address = (index + i) :: rest ∧ xs[i]? = some (some a) ∧ (rest, event) ∈ trail ctx a

theorem fromOperand_nil {index : Nat} {address : Address} {event : Event} :
    ¬ FromOperand ctx index [] address event := by
  simp [FromOperand]

theorem fromOperand_cons {index : Nat} {x : Option Expr} {xs : List (Option Expr)} {address : Address} {event : Event} :
    FromOperand ctx index (x :: xs) address event ↔
      (address, event) ∈ trailSlot ctx index x ∨ FromOperand ctx (index + 1) xs address event := by
  constructor
  · rintro ⟨i, rest, a, rfl, hslot, hmem⟩
    cases i with
    | zero =>
      obtain rfl : x = some a := by simpa using hslot
      rw [trailSlot, Nat.add_zero, mem_under]
      exact .inl ⟨rest, rfl, hmem⟩
    | succ i => exact .inr ⟨i, rest, a, by rw [Nat.add_right_comm]; rfl, hslot, hmem⟩
  · rintro (hmem | ⟨i, rest, a, rfl, hslot, hmem⟩)
    · cases x with
      | none =>
        rw [trailSlot] at hmem
        exact absurd hmem List.not_mem_nil
      | some a =>
        rw [trailSlot] at hmem
        obtain ⟨rest, rfl, hevent⟩ := mem_under.1 hmem
        exact ⟨0, rest, a, rfl, rfl, hevent⟩
    · exact ⟨i + 1, rest, a, by rw [Nat.add_right_comm]; rfl, hslot, hmem⟩

/-- An operator accepts an operand unless it would divide by a value close to zero. -/
theorem accepts_iff (op : Operator) (value x : Float) :
    op.apply? value x ≠ none ↔ (op = .division → approximately x 0 = false) := by
  unfold Operator.apply?
  cases op <;> simp

/-- A chain logs what its operands log, up to the first one that is absent or refused. -/
theorem mem_trailChain {op : Operator} {address : Address} {event : Event} :
    ∀ {xs : List (Option Expr)} {value : Float} {index : Nat},
      (address, event) ∈ trailChain ctx op value index xs ↔
        ∃ i rest a, address = (index + i) :: rest ∧ xs[i]? = some (some a) ∧
          (∀ j < i, ∃ x, xs[j]? = some (some x) ∧
            (op = .division → approximately (evaluate ctx x).value 0 = false)) ∧
          (rest, event) ∈ trail ctx a
  | [], value, index => by simp [trailChain]
  | none :: xs, value, index => by
    rw [trailChain]
    constructor
    · intro h
      exact absurd h List.not_mem_nil
    · rintro ⟨i, rest, a, -, hslot, hbefore, -⟩
      cases i with
      | zero => cases hslot
      | succ i =>
        obtain ⟨x, hx, -⟩ := hbefore 0 (Nat.succ_pos i)
        cases hx
  | some b :: xs, value, index => by
    rw [trailChain, List.mem_append, mem_under]
    constructor
    · rintro (⟨rest, rfl, hmem⟩ | hmem)
      · exact ⟨0, rest, b, rfl, rfl, by simp, hmem⟩
      · cases happly : op.apply? value (evaluate ctx b).value with
        | none =>
          rw [happly] at hmem
          exact absurd hmem List.not_mem_nil
        | some value' =>
          rw [happly] at hmem
          obtain ⟨i, rest, a, rfl, hslot, hbefore, hmem⟩ := mem_trailChain.1 hmem
          refine ⟨i + 1, rest, a, by rw [Nat.add_right_comm]; rfl, hslot, ?_, hmem⟩
          intro j hj
          cases j with
          | zero =>
            have haccepts : op.apply? value (evaluate ctx b).value ≠ none := by simp [happly]
            exact ⟨b, rfl, (accepts_iff op value _).1 haccepts⟩
          | succ j => exact hbefore j (Nat.lt_of_succ_lt_succ hj)
    · rintro ⟨i, rest, a, rfl, hslot, hbefore, hmem⟩
      cases i with
      | zero =>
        obtain rfl : b = a := by simpa using hslot
        exact .inl ⟨rest, rfl, hmem⟩
      | succ i =>
        obtain ⟨x, hx, haccepts⟩ := hbefore 0 (Nat.succ_pos i)
        obtain rfl : b = x := by simpa using hx
        obtain ⟨value', happly⟩ := Option.ne_none_iff_exists'.1 ((accepts_iff op value _).2 haccepts)
        right
        rw [happly]
        refine mem_trailChain.2 ⟨i, rest, a, by rw [Nat.add_right_comm]; rfl, hslot, ?_, hmem⟩
        intro j hj
        exact hbefore (j + 1) (Nat.succ_lt_succ hj)

/-- A maximum or minimum logs what the entries log that are there, and that it skipped the others. -/
theorem mem_trailPresent {side : Extremum} {address : Address} {event : Event} :
    ∀ {xs : List (Option Expr)} {index : Nat},
      (address, event) ∈ trailPresent ctx side index xs ↔
        FromOperand ctx index xs address event ∨
          address = [] ∧ ∃ i, event = .operandSkipped side (index + i) ∧ xs[i]? = some none
  | [], index => by simp [trailPresent, fromOperand_nil]
  | none :: xs, index => by
    rw [trailPresent, List.mem_cons, mem_trailPresent, fromOperand_cons, trailSlot]
    constructor
    · rintro (heq | hmem | ⟨rfl, i, rfl, hslot⟩)
      · obtain ⟨rfl, rfl⟩ := Prod.mk.inj heq
        exact .inr ⟨rfl, 0, rfl, rfl⟩
      · exact .inl (.inr hmem)
      · exact .inr ⟨rfl, i + 1, by rw [Nat.add_right_comm]; rfl, hslot⟩
    · rintro ((hmem | hmem) | ⟨rfl, i, rfl, hslot⟩)
      · exact absurd hmem List.not_mem_nil
      · exact .inr (.inl hmem)
      · cases i with
        | zero => exact .inl rfl
        | succ i => exact .inr (.inr ⟨rfl, i, by rw [Nat.add_right_comm]; rfl, hslot⟩)
  | some b :: xs, index => by
    rw [trailPresent, List.mem_append, mem_trailPresent, fromOperand_cons, trailSlot, or_assoc]
    refine or_congr_right (or_congr_right (and_congr_right fun _ => ?_))
    constructor
    · rintro ⟨i, rfl, hslot⟩
      exact ⟨i + 1, by rw [Nat.add_right_comm]; rfl, hslot⟩
    · rintro ⟨i, rfl, hslot⟩
      cases i with
      | zero => cases hslot
      | succ i => exact ⟨i, by rw [Nat.add_right_comm]; rfl, hslot⟩

/-- An event of an operand that the root of the tree gets to. -/
def FromEvaluated (e : Expr) (address : Address) (event : Event) : Prop :=
  ∃ index rest a, address = index :: rest ∧ e.slots[index]? = some (some a) ∧ Evaluates ctx e index ∧
    (rest, event) ∈ trail ctx a

/-- What stands in the trail of a tree: the events of the operands that its root gets to, and its own. -/
def Covers (e : Expr) (address : Address) (event : Event) : Prop :=
  FromEvaluated ctx e address event ∨ address = [] ∧ Logs ctx e event

section
variable {e : Expr} {address : Address} {event : Event} {t : Trail}

/-- A node that logs nothing itself but its failure. -/
theorem mem_append_ownFailure (hown : Logs ctx e event → ∃ error, event = .nodeFailed e error)
    (ht : (address, event) ∈ t ↔ FromEvaluated ctx e address event) :
    (address, event) ∈ t ++ ownFailure ctx e ↔ Covers ctx e address event := by
  rw [List.mem_append, ht, mem_ownFailure, Covers]
  refine or_congr_right (and_congr_right fun _ => ?_)
  constructor
  · rintro ⟨error, rfl, herror⟩
    exact .failure herror
  · intro h
    obtain ⟨error, rfl⟩ := hown h
    cases h with
    | failure herror => exact ⟨error, rfl, herror⟩

theorem mem_ownFailure_of_leaf (hslots : e.slots = [])
    (hown : Logs ctx e event → ∃ error, event = .nodeFailed e error) :
    (address, event) ∈ ownFailure ctx e ↔ Covers ctx e address event :=
  mem_append_ownFailure (t := []) ctx hown (by simp [FromEvaluated, hslots])

/-- A node whose operands are either all evaluated or not at all. -/
theorem mem_of_fixed (hkind : ∀ index, Evaluates ctx e index ↔ none ∉ e.slots)
    (ht : (address, event) ∈ t ↔ none ∉ e.slots ∧ FromOperand ctx 0 e.slots address event) :
    (address, event) ∈ t ↔ FromEvaluated ctx e address event := by
  rw [ht, FromOperand, FromEvaluated]
  constructor
  · rintro ⟨hslots, i, rest, a, rfl, hslot, hmem⟩
    exact ⟨i, rest, a, by rw [Nat.zero_add], hslot, (hkind i).2 hslots, hmem⟩
  · rintro ⟨i, rest, a, rfl, hslot, hevaluates, hmem⟩
    exact ⟨(hkind i).1 hevaluates, i, rest, a, by rw [Nat.zero_add], hslot, hmem⟩

end

/-- What one node adds to the trail, kind by kind. -/
theorem mem_trail (address : Address) (event : Event) : ∀ e, (address, event) ∈ trail ctx e ↔
    Covers ctx e address event
  | .constant _ | .euler | .coreStat _ | .mastery => by
    rw [trail]
    refine mem_ownFailure_of_leaf ctx rfl ?_
    rintro ⟨⟩
    exact ⟨_, rfl⟩
  | .derivedStat stat => by
    rw [trail, ownFailure_derivedStat, List.append_nil]
    constructor
    · intro h
      obtain ⟨event', hevent, heq⟩ := List.mem_map.1 h
      obtain ⟨rfl, rfl⟩ := Prod.mk.inj heq
      rcases ctx.events_derivedStat stat with hnone | ⟨derived, core, hone⟩
      · rw [hnone] at hevent
        exact absurd hevent List.not_mem_nil
      · obtain rfl := List.mem_singleton.1 (hone ▸ hevent)
        exact .inr ⟨rfl, .division hevent⟩
    · rintro (⟨index, rest, a, -, hslot, -⟩ | ⟨rfl, h⟩)
      · cases hslot
      · cases h with
        | failure herror =>
          rw [attempt, Traced.value_map] at herror
          cases herror
        | division hevent => exact List.mem_map_of_mem hevent
  | .chain op xs => by
    rw [trail]
    refine mem_append_ownFailure ctx ?_ ?_
    · rintro ⟨⟩
      exact ⟨_, rfl⟩
    rw [mem_trailChain]
    simp only [Nat.zero_add]
    rfl
  | .extremum side xs => by
    rw [trail, ownFailure_extremum, List.append_nil, mem_trailPresent, FromOperand]
    simp only [Nat.zero_add]
    refine or_congr ?_ (and_congr_right fun _ => ?_)
    · simp [FromEvaluated, slots, Evaluates]
    · constructor
      · rintro ⟨i, rfl, hslot⟩
        exact .skip hslot
      · intro h
        cases h with
        | failure herror =>
          rw [attempt, Traced.value_map] at herror
          cases herror
        | skip hslot => exact ⟨_, rfl, hslot⟩
  | .exponential a => by
    rw [trail]
    refine mem_append_ownFailure ctx ?_ (mem_of_fixed ctx (fun _ => Iff.rfl) ?_)
    · rintro ⟨⟩
      exact ⟨_, rfl⟩
    rw [slots, fromOperand_cons]
    cases a <;> simp [trailSlot, fromOperand_nil]
  | .power a b | .logarithmic a b => by
    rw [trail]
    refine mem_append_ownFailure ctx ?_ (mem_of_fixed ctx (fun _ => Iff.rfl) ?_)
    · rintro ⟨⟩
      exact ⟨_, rfl⟩
    rw [slots, fromOperand_cons, fromOperand_cons]
    cases a <;> cases b <;> simp [fromOperand_nil]
  | .clamp a b c => by
    rw [trail]
    refine mem_append_ownFailure ctx ?_ (mem_of_fixed ctx (fun _ => Iff.rfl) ?_)
    · rintro ⟨⟩
      exact ⟨_, rfl⟩
    rw [slots, fromOperand_cons, fromOperand_cons, fromOperand_cons]
    cases a <;> cases b <;> cases c <;> simp [fromOperand_nil]

/-- **The events of a trail are those that the reached nodes log**, each with the address of its node. -/
theorem mem_trail_iff {e : Expr} {address : Address} {event : Event} :
    (address, event) ∈ trail ctx e ↔ ∃ node, Reaches ctx e address node ∧ Logs ctx node event := by
  induction address generalizing e with
  | nil =>
    rw [mem_trail, Covers, FromEvaluated]
    simp [reaches_nil_iff]
  | cons index rest ih =>
    rw [mem_trail, Covers, FromEvaluated]
    constructor
    · rintro (⟨_, _, a, heq, hslot, hevaluates, hmem⟩ | ⟨heq, -⟩)
      · obtain ⟨rfl, rfl⟩ := List.cons.inj heq
        obtain ⟨node, hreaches, hlogs⟩ := ih.1 hmem
        exact ⟨node, .operand hslot hevaluates hreaches, hlogs⟩
      · cases heq
    · rintro ⟨node, hreaches, hlogs⟩
      obtain ⟨a, hslot, hevaluates, hrest⟩ := (reaches_cons_iff ctx).1 hreaches
      exact .inl ⟨index, rest, a, rfl, hslot, hevaluates, ih.2 ⟨node, hrest, hlogs⟩⟩

/-! ## The log -/

/-- What the reached nodes log, all of it and nothing else, in post-order. -/
structure IsTrace (e : Expr) (t : Trail) : Prop where
  inPostOrder : t.InPostOrder
  mem_iff : ∀ address event, (address, event) ∈ t ↔ ∃ node, Reaches ctx e address node ∧ Logs ctx node event

theorem isTrace_trail (e : Expr) : IsTrace ctx e (trail ctx e) :=
  ⟨trail_inPostOrder ctx e, fun _ _ => mem_trail_iff ctx⟩

end

/-- A trail in post-order names no event twice. -/
theorem nodup_of_inPostOrder {t : Trail} (h : t.InPostOrder) : t.Nodup := by
  refine h.imp ?_
  rintro x _ hbefore rfl
  exact Address.Before.irrefl _ hbefore

/-- There is only one trace of a tree, since post-order leaves no choice. -/
theorem IsTrace.unique {ctx : Context} {e : Expr} {t u : Trail} (ht : IsTrace ctx e t) (hu : IsTrace ctx e u) :
    t = u := by
  have hperm : t.Perm u := by
    rw [List.perm_ext_iff_of_nodup (nodup_of_inPostOrder ht.inPostOrder) (nodup_of_inPostOrder hu.inPostOrder)]
    rintro ⟨address, event⟩
    rw [ht.mem_iff, hu.mem_iff]
  refine hperm.eq_of_pairwise ?_ ht.inPostOrder hu.inPostOrder
  intro x y _ _ hxy hyx
  exact absurd hyx (Address.Before.asymm hxy)

/-- The failures in a trace are those of the reached nodes. -/
theorem IsTrace.failure_iff {ctx : Context} {e : Expr} {t : Trail} (ht : IsTrace ctx e t) (address : Address)
    (event : Event) : (address, event) ∈ t ∧ event.message = "expression evaluated to 0" ↔
      ∃ node error, event = .nodeFailed node error ∧ Reaches ctx e address node ∧
        (node.attempt ctx).value = .error error := by
  rw [ht.mem_iff]
  constructor
  · rintro ⟨⟨node, hreaches, hlogs⟩, hmessage⟩
    cases hlogs with
    | failure herror => exact ⟨node, _, rfl, hreaches, herror⟩
    | skip => exact absurd hmessage (by simp [Event.message])
    | division => exact absurd hmessage (by simp [Event.message])
  · rintro ⟨node, error, rfl, hreaches, herror⟩
    exact ⟨⟨node, hreaches, .failure herror⟩, rfl⟩

/-- The skipped entries in a trace are the absent ones of the reached maxima and minima. -/
theorem IsTrace.skip_iff {ctx : Context} {e : Expr} {t : Trail} (ht : IsTrace ctx e t) (address : Address)
    (event : Event) : (address, event) ∈ t ∧ event.message = "skipping absent operand" ↔
      ∃ side xs index, event = .operandSkipped side index ∧ Reaches ctx e address (.extremum side xs) ∧
        xs[index]? = some none := by
  rw [ht.mem_iff]
  constructor
  · rintro ⟨⟨node, hreaches, hlogs⟩, hmessage⟩
    cases hlogs with
    | failure => exact absurd hmessage (by simp [Event.message])
    | skip hslot => exact ⟨_, _, _, rfl, hreaches, hslot⟩
    | division => exact absurd hmessage (by simp [Event.message])
  · rintro ⟨side, xs, index, rfl, hreaches, hslot⟩
    exact ⟨⟨_, hreaches, .skip hslot⟩, rfl⟩

/-- The level of a failure goes by its error. -/
def failureLevel : FormulaError → Level
  | .divisionByZero _ => .error
  | .invalidLogBase _ => .debug
  | _ => .warn

/-- **The log of an evaluation is the post-order trace** of the nodes that it reaches: there is exactly one list of
their events with their addresses that is in post-order, and without the addresses it is the log. In it every
reached node that fails reports so once, with its kind, its text and its error, at the level of the error, and
every reached maximum or minimum reports each of its absent entries once, with the position of the entry. -/
theorem log_is_post_order (ctx : Context) (e : Expr) :
    ∃ t : Trail, IsTrace ctx e t ∧ (∀ u, IsTrace ctx e u → u = t) ∧ t.map (·.2) = (evaluate ctx e).events ∧
      (∀ address node, Reaches ctx e address node → e.at? address = some node) ∧
      (∀ address event, (address, event) ∈ t ∧ event.message = "expression evaluated to 0" ↔
        ∃ node error, event = .nodeFailed node error ∧ Reaches ctx e address node ∧
          (node.attempt ctx).value = .error error) ∧
      (∀ address event, (address, event) ∈ t ∧ event.message = "skipping absent operand" ↔
        ∃ side xs index, event = .operandSkipped side index ∧ Reaches ctx e address (.extremum side xs) ∧
          xs[index]? = some none) ∧
      (∀ node error, (Event.nodeFailed node error).level = failureLevel error ∧
        (Event.nodeFailed node error).fields = [("node", .text node.kind.name),
          ("expression", .text node.display), ("error", .text error.message)]) ∧
      ∀ side index, (Event.operandSkipped side index).level = .warn ∧
        (Event.operandSkipped side index).fields =
          [("node", .text (Kind.extremum side).name), ("index", .index index)] := by
  have htrace := isTrace_trail ctx e
  refine ⟨trail ctx e, htrace, fun u hu => hu.unique htrace, map_snd_trail ctx e, fun _ _ => Reaches.at?_eq ctx,
    htrace.failure_iff, htrace.skip_iff, ?_, fun _ _ => ⟨rfl, rfl⟩⟩
  intro node error
  refine ⟨?_, rfl⟩
  cases error <;> rfl

/-- A maximum whose second entry divides by zero before it comes to the operand that it lacks. -/
def patchyMaximum : Expr :=
  .extremum .max [none, some (.chain .division [some (.constant 0), none]), none]

example : (evaluate .empty patchyMaximum).events =
    [.operandSkipped .max 0, .nodeFailed (.chain .division [some (.constant 0), none]) (.divisionByZero 0),
      .operandSkipped .max 2] := rfl

end Expr

end Formulary
