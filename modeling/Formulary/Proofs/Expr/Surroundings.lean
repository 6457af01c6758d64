import Formulary.Proofs.Expr.Trail

/-!
# Trees around a subtree

A node knows its operands by their values only. So what surrounds a subtree cannot tell it from another one of the same
value, wherever in the tree it stands and whether or not it is evaluated there: `evaluate_fill_congr`.
-/

namespace Formulary.Expr

/-! ## Surroundings -/

/-- A node with one of its operands left open. -/
inductive Frame where
  | chain (op : Operator) (before after : List (Option Expr))
  | extremum (side : Extremum) (before after : List (Option Expr))
  | powerBase (exponent : Option Expr)
  | powerExponent (base : Option Expr)
  | exponential
  | logarithmicBase (power : Option Expr)
  | logarithmicPower (base : Option Expr)
  | clampValue (min max : Option Expr)
  | clampMin (value max : Option Expr)
  | clampMax (value min : Option Expr)

namespace Frame

/-- The node with an operand in the open slot. -/
def fill : Frame → Expr → Expr
  | .chain op before after, e => .chain op (before ++ some e :: after)
  | .extremum side before after, e => .extremum side (before ++ some e :: after)
  | .powerBase b, e => .power (some e) b
  | .powerExponent a, e => .power a (some e)
  | .exponential, e => .exponential (some e)
  | .logarithmicBase b, e => .logarithmic (some e) b
  | .logarithmicPower a, e => .logarithmic a (some e)
  | .clampValue b c, e => .clamp (some e) b c
  | .clampMin a c, e => .clamp a (some e) c
  | .clampMax a b, e => .clamp a b (some e)

def index : Frame → Nat
  | .chain _ before _ | .extremum _ before _ => before.length
  | .powerBase _ | .exponential | .logarithmicBase _ | .clampValue .. => 0
  | .powerExponent _ | .logarithmicPower _ | .clampMin .. => 1
  | .clampMax .. => 2

theorem kind_fill (f : Frame) (e₁ e₂ : Expr) : (f.fill e₁).kind = (f.fill e₂).kind := by
  cases f <;> rfl

/-- What stands in the open slot is the operand at its position. -/
theorem slots_fill (f : Frame) (e : Expr) : (f.fill e).slots[f.index]? = some (some e) := by
  cases f with
  | chain op before after => simp [fill, slots, index]
  | extremum side before after => simp [fill, slots, index]
  | _ => rfl

/-- Every operand stands in the open slot of a frame. -/
theorem exists_fill {tree e : Expr} {index : Nat} (h : tree.slots[index]? = some (some e)) :
    ∃ f : Frame, f.index = index ∧ f.fill e = tree := by
  have hlist {xs : List (Option Expr)} (h : xs[index]? = some (some e)) :
      (xs.take index).length = index ∧ xs.take index ++ some e :: xs.drop (index + 1) = xs := by
    obtain ⟨hlt, heq⟩ := List.getElem?_eq_some_iff.1 h
    refine ⟨List.length_take_of_le (Nat.le_of_lt hlt), ?_⟩
    rw [← heq, ← List.drop_eq_getElem_cons hlt, List.take_append_drop]
  cases tree with
  | chain op xs => exact ⟨.chain op _ _, (hlist h).1, congrArg _ (hlist h).2⟩
  | extremum side xs => exact ⟨.extremum side _ _, (hlist h).1, congrArg _ (hlist h).2⟩
  | power a b =>
    match index, h with
    | 0, h =>
      obtain rfl : a = some e := Option.some.inj h
      exact ⟨.powerBase b, rfl, rfl⟩
    | 1, h =>
      obtain rfl : b = some e := Option.some.inj h
      exact ⟨.powerExponent a, rfl, rfl⟩
  | exponential a =>
    match index, h with
    | 0, h =>
      obtain rfl : a = some e := Option.some.inj h
      exact ⟨.exponential, rfl, rfl⟩
  | logarithmic a b =>
    match index, h with
    | 0, h =>
      obtain rfl : a = some e := Option.some.inj h
      exact ⟨.logarithmicBase b, rfl, rfl⟩
    | 1, h =>
      obtain rfl : b = some e := Option.some.inj h
      exact ⟨.logarithmicPower a, rfl, rfl⟩
  | clamp a b c =>
    match index, h with
    | 0, h =>
      obtain rfl : a = some e := Option.some.inj h
      exact ⟨.clampValue b c, rfl, rfl⟩
    | 1, h =>
      obtain rfl : b = some e := Option.some.inj h
      exact ⟨.clampMin a c, rfl, rfl⟩
    | 2, h =>
      obtain rfl : c = some e := Option.some.inj h
      exact ⟨.clampMax a b, rfl, rfl⟩
  | _ => exact absurd h (by simp [slots])

end Frame

/-- The tree with a subtree in the place that some frames, the outermost first, leave open. -/
def fill : List Frame → Expr → Expr
  | [], e => e
  | f :: frames, e => f.fill (fill frames e)

/-- The address of the place that some frames leave open. -/
def opening (frames : List Frame) : Address :=
  frames.map Frame.index

theorem at?_fill (frames : List Frame) (e : Expr) : (fill frames e).at? (opening frames) = some e := by
  induction frames with
  | nil => rfl
  | cons f frames ih =>
    rw [opening, List.map_cons, fill, at?, Frame.slots_fill]
    exact ih

/-- **Frames lead to every place** of a tree. -/
theorem at?_eq_some_iff {tree e : Expr} {address : Address} :
    tree.at? address = some e ↔ ∃ frames, opening frames = address ∧ fill frames e = tree := by
  constructor
  · intro h
    induction address generalizing tree with
    | nil => exact ⟨[], rfl, (Option.some.inj h).symm⟩
    | cons index address ih =>
      rw [at?] at h
      split at h
      · next operand hoperand =>
        obtain ⟨frames, rfl, rfl⟩ := ih h
        obtain ⟨f, rfl, rfl⟩ := Frame.exists_fill hoperand
        exact ⟨f :: frames, rfl, rfl⟩
      · exact absurd h (by simp)
  · rintro ⟨frames, rfl, rfl⟩
    exact at?_fill frames e

/-! ## What a log says -/

end Expr

/-- What an event says, without the text of the node that failed. -/
inductive Gist where
  | failed (level : Level) (node : Kind) (error : FormulaError)
  | other (event : Event)

def Event.gist : Event → Gist
  | .nodeFailed node error => .failed (Event.nodeFailed node error).level node.kind error
  | event => .other event

namespace Trail

/-- The events that do not come from the subtree at an address. -/
def outside (address : Address) (t : Trail) : Trail :=
  t.filter fun x => !address.isPrefixOf x.1

/-- What the events of a trail say, with their addresses. -/
def gists (t : Trail) : List (Address × Gist) :=
  t.map fun x => (x.1, x.2.gist)

/-- Two trails that differ at most in what comes from the subtree at an address, and in the texts of nodes. -/
def Agree (address : Address) (t u : Trail) : Prop :=
  (t.outside address).gists = (u.outside address).gists

variable {address : Address} {t u t' u' : Trail}

theorem agree_refl (address : Address) (t : Trail) : Agree address t t :=
  rfl

theorem Agree.append (h : Agree address t u) (h' : Agree address t' u') : Agree address (t ++ t') (u ++ u') := by
  simp only [Agree, outside, gists, List.filter_append, List.map_append] at h h' ⊢
  rw [h, h']

theorem Agree.under (h : Agree address t u) (index : Nat) :
    Agree (index :: address) (t.under index) (u.under index) := by
  have hgists (v : Trail) : ((v.under index).outside (index :: address)).gists =
      ((v.outside address).gists).map fun x => (index :: x.1, x.2) := by
    simp [outside, gists, Trail.under, List.filter_map, Function.comp_def]
  rw [Agree, hgists, hgists, h]

/-- Everything comes from the subtree at the root. -/
theorem agree_nil (t u : Trail) : Agree [] t u := by
  have hnone (v : Trail) : v.outside [] = [] := List.filter_eq_nil_iff.2 (by simp)
  rw [Agree, hnone, hnone]

end Trail

namespace Expr

/-! ## One node -/

/-- What a node knows of an operand: whether it is there, and its value. -/
def known (x : Operand) : Option Float :=
  x.map Traced.value

theorem run_congr (op : Operator) {xs ys : List Operand} (h : xs.map known = ys.map known) (value : Float)
    (index : Nat) : (op.run value index xs).value = (op.run value index ys).value := by
  induction xs generalizing ys value index with
  | nil =>
    obtain rfl : ys = [] := List.map_eq_nil_iff.1 h.symm
    rfl
  | cons x xs ih =>
    obtain ⟨y, ys, rfl, hy, hys⟩ := List.map_eq_cons_iff.1 h.symm
    cases x with
    | none =>
      obtain rfl : y = none := Option.map_eq_none_iff.1 hy
      rfl
    | some a =>
      obtain ⟨b, rfl, hb⟩ := Option.map_eq_some_iff.1 hy
      rw [Operator.run, Operator.run, Traced.value_bind, Traced.value_bind, hb]
      cases op.apply? value a.value with
      | some value => exact ih hys.symm value (index + 1)
      | none => rfl

theorem present_congr (side : Extremum) {xs ys : List Operand} (h : xs.map known = ys.map known) (index : Nat) :
    (side.present index xs).value = (side.present index ys).value := by
  induction xs generalizing ys index with
  | nil =>
    obtain rfl : ys = [] := List.map_eq_nil_iff.1 h.symm
    rfl
  | cons x xs ih =>
    obtain ⟨y, ys, rfl, hy, hys⟩ := List.map_eq_cons_iff.1 h.symm
    cases x with
    | none =>
      obtain rfl : y = none := Option.map_eq_none_iff.1 hy
      exact ih hys.symm (index + 1)
    | some a =>
      obtain ⟨b, rfl, hb⟩ := Option.map_eq_some_iff.1 hy
      simp only [Extremum.present, Traced.value_bind, Traced.value_pure, hb, ih hys.symm (index + 1)]

section
variable (ctx : Context)

theorem known_operands (before after : List (Option Expr)) {e₁ e₂ : Expr}
    (h : (evaluate ctx e₁).value = (evaluate ctx e₂).value) :
    (operands ctx (before ++ some e₁ :: after)).map known = (operands ctx (before ++ some e₂ :: after)).map known := by
  simp [operands_eq, known, h]

/-- **A node fails, or has its value, whatever subtree of one value stands in it.** -/
theorem attempt_fill_congr (f : Frame) {e₁ e₂ : Expr} (h : (evaluate ctx e₁).value = (evaluate ctx e₂).value) :
    ((f.fill e₁).attempt ctx).value = ((f.fill e₂).attempt ctx).value := by
  cases f with
  | chain op before after => exact run_congr op (known_operands ctx before after h) op.start 0
  | extremum side before after =>
    have hvalues := present_congr side (known_operands ctx before after h) 0
    simp only [Frame.fill, attempt, Extremum.run, Traced.value_map, hvalues]
  | powerBase exponent =>
    cases exponent with
    | none => simp only [Frame.fill, attempt_power_exponent]
    | some b => simp only [Frame.fill, attempt_power, Traced.value_bind, h]
  | powerExponent base =>
    cases base with
    | none => simp only [Frame.fill, attempt_power_base]
    | some a => simp only [Frame.fill, attempt_power, Traced.value_bind, h]
  | exponential => simp only [Frame.fill, attempt_exponential, Traced.value_bind, h]
  | logarithmicBase power =>
    cases power with
    | none => simp only [Frame.fill, attempt_logarithmic_power]
    | some b => simp only [Frame.fill, attempt_logarithmic, Traced.value_bind, h]
  | logarithmicPower base =>
    cases base with
    | none => simp only [Frame.fill, attempt_logarithmic_base]
    | some a => simp only [Frame.fill, attempt_logarithmic, Traced.value_bind, h]
  | clampValue min max =>
    cases min with
    | none => simp only [Frame.fill, attempt_clamp_min]
    | some b =>
      cases max with
      | none => simp only [Frame.fill, attempt_clamp_max]
      | some c => simp only [Frame.fill, attempt_clamp, Traced.value_bind, h]
  | clampMin value max =>
    cases value with
    | none => simp only [Frame.fill, attempt_clamp_value]
    | some a =>
      cases max with
      | none => simp only [Frame.fill, attempt_clamp_max]
      | some c => simp only [Frame.fill, attempt_clamp, Traced.value_bind, h]
  | clampMax value min =>
    cases value with
    | none => simp only [Frame.fill, attempt_clamp_value]
    | some a =>
      cases min with
      | none => simp only [Frame.fill, attempt_clamp_min]
      | some b => simp only [Frame.fill, attempt_clamp, Traced.value_bind, h]

/-! ## The trail of one node -/

variable {ctx : Context} {address : Address} {e₁ e₂ : Expr}

theorem ownFailure_agree {a b : Expr} (h : (a.attempt ctx).value = (b.attempt ctx).value) (hkind : a.kind = b.kind) :
    Trail.Agree address (ownFailure ctx a) (ownFailure ctx b) := by
  rw [ownFailure, ownFailure, h]
  cases (b.attempt ctx).value with
  | ok value => exact Trail.agree_refl address []
  | error error =>
    have hlevel : (Event.nodeFailed a error).level = (Event.nodeFailed b error).level := by cases error <;> rfl
    have hgist : (Event.nodeFailed a error).gist = (Event.nodeFailed b error).gist := by
      rw [Event.gist, Event.gist, hlevel, hkind]
    cases address <;> simp [Trail.Agree, Trail.outside, Trail.gists, hgist]

section
variable (h : (evaluate ctx e₁).value = (evaluate ctx e₂).value)
  (ht : Trail.Agree address (trail ctx e₁) (trail ctx e₂))
include h ht

theorem trailChain_agree (op : Operator) (before after : List (Option Expr)) (value : Float) (index : Nat) :
    Trail.Agree ((index + before.length) :: address) (trailChain ctx op value index (before ++ some e₁ :: after))
      (trailChain ctx op value index (before ++ some e₂ :: after)) := by
  induction before generalizing value index with
  | nil =>
    rw [List.nil_append, List.nil_append, trailChain, trailChain, h]
    exact (ht.under index).append (Trail.agree_refl _ _)
  | cons x before ih =>
    cases x with
    | none => exact Trail.agree_refl _ _
    | some a =>
      rw [List.cons_append, List.cons_append, trailChain, trailChain]
      refine (Trail.agree_refl _ _).append ?_
      cases op.apply? value (evaluate ctx a).value with
      | none => exact Trail.agree_refl _ _
      | some value =>
        rw [List.length_cons, Nat.add_comm before.length, ← Nat.add_assoc]
        exact ih value (index + 1)

omit h in
theorem trailPresent_agree (side : Extremum) (before after : List (Option Expr)) (index : Nat) :
    Trail.Agree ((index + before.length) :: address) (trailPresent ctx side index (before ++ some e₁ :: after))
      (trailPresent ctx side index (before ++ some e₂ :: after)) := by
  induction before generalizing index with
  | nil =>
    rw [List.nil_append, List.nil_append, trailPresent, trailPresent]
    exact (ht.under index).append (Trail.agree_refl _ _)
  | cons x before ih =>
    have hrest := ih (index + 1)
    rw [Nat.add_assoc, Nat.add_comm 1, ← List.length_cons (a := x)] at hrest
    cases x with
    | none =>
      rw [List.cons_append, List.cons_append, trailPresent, trailPresent]
      exact (Trail.agree_refl _ [_]).append hrest
    | some a =>
      rw [List.cons_append, List.cons_append, trailPresent, trailPresent]
      exact (Trail.agree_refl _ _).append hrest

/-- The trail of a node tells subtrees of one value apart only by their own trails. -/
theorem trail_fill_agree (f : Frame) :
    Trail.Agree (f.index :: address) (trail ctx (f.fill e₁)) (trail ctx (f.fill e₂)) := by
  have hown : Trail.Agree (f.index :: address) (ownFailure ctx (f.fill e₁)) (ownFailure ctx (f.fill e₂)) :=
    ownFailure_agree (attempt_fill_congr ctx f h) (f.kind_fill e₁ e₂)
  cases f with
  | chain op before after =>
    have hchain := trailChain_agree h ht op before after op.start 0
    rw [Nat.zero_add] at hchain
    exact hchain.append hown
  | extremum side before after =>
    have hpresent := trailPresent_agree ht side before after 0
    rw [Nat.zero_add] at hpresent
    exact hpresent.append hown
  | powerBase b =>
    cases b with
    | none => exact hown
    | some b => exact ((ht.under 0).append (Trail.agree_refl _ _)).append hown
  | powerExponent a =>
    cases a with
    | none => exact hown
    | some a => exact ((Trail.agree_refl _ _).append (ht.under 1)).append hown
  | exponential => exact (ht.under 0).append hown
  | logarithmicBase b =>
    cases b with
    | none => exact hown
    | some b => exact ((ht.under 0).append (Trail.agree_refl _ _)).append hown
  | logarithmicPower a =>
    cases a with
    | none => exact hown
    | some a => exact ((Trail.agree_refl _ _).append (ht.under 1)).append hown
  | clampValue b c =>
    cases b with
    | none => exact hown
    | some b =>
      cases c with
      | none => exact hown
      | some c => exact ((ht.under 0).append (Trail.agree_refl _ _)).append hown
  | clampMin a c =>
    cases a with
    | none => exact hown
    | some a =>
      cases c with
      | none => exact hown
      | some c => exact ((Trail.agree_refl _ _).append ((ht.under 1).append (Trail.agree_refl _ _))).append hown
  | clampMax a b =>
    cases a with
    | none => exact hown
    | some a =>
      cases b with
      | none => exact hown
      | some b =>
        exact ((Trail.agree_refl _ _).append ((Trail.agree_refl _ _).append (ht.under 2))).append hown

end

/-! ## Whole trees -/

/-- Whether two subtrees can stand for one another in some surroundings: all that is left different by it is
what comes from the subtrees themselves, and the texts of the nodes around them. -/
structure Interchangeable (ctx : Context) (frames : List Frame) (e₁ e₂ : Expr) : Prop where
  /-- the whole trees have one value -/
  value : (evaluate ctx (fill frames e₁)).value = (evaluate ctx (fill frames e₂)).value
  /-- every node around the subtrees, the root first, has one value or one failure of its own -/
  attempt : ∀ inner, inner <:+ frames → inner ≠ [] →
    ((fill inner e₁).attempt ctx).value = ((fill inner e₂).attempt ctx).value
  /-- the events that come from around the subtrees say the same, one by one -/
  trail : Trail.Agree (opening frames) (trail ctx (fill frames e₁)) (trail ctx (fill frames e₂))

theorem evaluate_congr {a b : Expr} (h : (a.attempt ctx).value = (b.attempt ctx).value) :
    (evaluate ctx a).value = (evaluate ctx b).value := by
  rw [evaluate, evaluate, absorb, absorb, h]
  cases (b.attempt ctx).value with
  | ok value => rfl
  | error error => rfl

/-- What can be exchanged in an open slot can be exchanged in all that surrounds it. -/
theorem interchangeable_of_value (h : (evaluate ctx e₁).value = (evaluate ctx e₂).value) (frames : List Frame) :
    Interchangeable ctx frames e₁ e₂ := by
  induction frames with
  | nil =>
    refine ⟨h, ?_, Trail.agree_nil _ _⟩
    intro inner hinner hne
    exact absurd (List.suffix_nil.1 hinner) hne
  | cons f frames ih =>
    have hattempt := attempt_fill_congr ctx f ih.value
    refine ⟨evaluate_congr hattempt, ?_, trail_fill_agree ih.value ih.trail f⟩
    intro inner hinner hne
    rcases List.suffix_cons_iff.1 hinner with rfl | hinner
    · exact hattempt
    · exact ih.attempt inner hinner hne

theorem value_of_attempt_eq_error {e : Expr} {error : FormulaError} (h : (e.attempt ctx).value = .error error) :
    (evaluate ctx e).value = 0 := by
  rw [evaluate, absorb, h]

/-- **A subtree matters only through its value**: in whatever place of whatever tree, subtrees of one value are
interchangeable there. So a subtree that fails is interchangeable with the literal zero. The place is where the
subtree stands, frames lead to every place of every tree, and the trail is the log with the places of its failures. -/
theorem evaluate_fill_congr (ctx : Context) (frames : List Frame) :
    (∀ e₁ e₂, (evaluate ctx e₁).value = (evaluate ctx e₂).value → Interchangeable ctx frames e₁ e₂) ∧
    (∀ e error, (e.attempt ctx).value = .error error → Interchangeable ctx frames e (.constant 0)) ∧
    (∀ e, (fill frames e).at? (opening frames) = some e) ∧
    (∀ tree e address, tree.at? address = some e → ∃ outer, opening outer = address ∧ fill outer e = tree) ∧
    ∀ e, (trail ctx e).map (·.2) = (evaluate ctx e).events ∧ Located e (trail ctx e) := by
  refine ⟨?_, ?_, at?_fill frames, fun _ _ _ => at?_eq_some_iff.1, fun e => ⟨map_snd_trail ctx e, trail_located ctx e⟩⟩
  · intro e₁ e₂ h
    exact interchangeable_of_value h frames
  · intro e error h
    exact interchangeable_of_value (value_of_attempt_eq_error h) frames

/-- The second divisor of a division is a logarithm, the base of which is left open. -/
def openBase : List Frame :=
  [.chain .division [some (.constant 2)] [some .mastery], .logarithmicBase (some (.constant 8))]

def zeroDivisor : Expr :=
  .chain .division [some (.constant 0)]

theorem evaluate_fill_zeroDivisor :
    (zeroDivisor.attempt .empty).value = .error (.divisionByZero 0) ∧
      Interchangeable .empty openBase zeroDivisor (.constant 0) ∧
      ((fill openBase zeroDivisor).attempt .empty).value = .error (.divisionByZero 1) ∧
      Interchangeable .empty openBase (.chain .multiplication [some (.constant 2), some (.constant 3)])
        (.constant 6) := by
  refine ⟨rfl, (evaluate_fill_congr .empty openBase).2.1 zeroDivisor (.divisionByZero 0) rfl, rfl, ?_⟩
  exact (evaluate_fill_congr .empty openBase).1 _ _ (by decide +kernel)

end

end Expr

end Formulary
