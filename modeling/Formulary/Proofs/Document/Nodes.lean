import Formulary.Document.Expr
import Formulary.Proofs.Json.Levels

/-!
# Reading nodes at any depth

The reader of expressions is bounded by the nesting of the value that it is given. The bound is never felt, so what a
value spells is given by one equation, in which the reader of the nodes below is the reader itself (`Expr.readAt_eq`).
-/

namespace Formulary

open Json (nesting nestingItems nestingMembers)

/-! ## Parts of records -/

namespace Record
variable {α : Type} {r : Record} {name : String}

theorem withDefault_congr {default : α} {f g : Json → Option α} (h : ∀ j, r.get? name = some j → f j = g j) :
    r.withDefault name default f = r.withDefault name default g := by
  unfold withDefault
  split
  · next j hj => exact h j hj
  · rfl

theorem operand_congr {f g : Json → Option (Option α)} (h : ∀ j, r.get? name = some j → f j = g j) :
    r.operand name f = r.operand name g := by
  unfold operand
  split
  · next j hj => exact h j hj
  · rfl

theorem nesting_get?_le {n : Nat} {j : Json} (hr : ∀ m ∈ r.members, nesting m.2 ≤ n) (h : r.get? name = some j) :
    nesting j ≤ n := by
  obtain ⟨m, hm, rfl⟩ := Option.map_eq_some_iff.1 h
  exact hr m (List.mem_of_find?_eq_some hm)

theorem members_of_ofMembers? {names : List String} {members : List (String × Json)}
    (h : ofMembers? names members = some r) : r.members = members := by
  unfold ofMembers? at h
  split at h
  · rw [← Option.some.inj h]
  · exact absurd h (by simp)

theorem members_of_ofItems? {names : List String} {items : List Json} (h : ofItems? names items = some r) :
    r.members = names.zip items := by
  unfold ofItems? at h
  split at h
  · rw [← Option.some.inj h]
  · exact absurd h (by simp)

end Record

theorem Json.toOption?_congr {α : Type} {f g : Json → Option α} {j : Json} (h : f j = g j) :
    Json.toOption? f j = Json.toOption? g j := by
  unfold Json.toOption?
  split
  · rfl
  · rw [h]

theorem mapM_congr_of_mem {α β : Type} {f g : α → Option β} {xs : List α} (h : ∀ x ∈ xs, f x = g x) :
    xs.mapM f = xs.mapM g := by
  induction xs with
  | nil => rfl
  | cons x xs ih =>
    obtain ⟨hx, hxs⟩ := List.forall_mem_cons.1 h
    rw [List.mapM_cons, List.mapM_cons, hx, ih hxs]

theorem Json.toList?_congr {α : Type} {f g : Json → Option α} {n : Nat} (h : ∀ j, nesting j ≤ n → f j = g j)
    {j : Json} (hj : nesting j ≤ n) : Json.toList? f j = Json.toList? g j := by
  unfold Json.toList?
  split
  · next items =>
    rw [nesting] at hj
    apply mapM_congr_of_mem
    intro item hitem
    have hle := Json.nestingItems_le_iff.1 (Nat.le_refl _) item hitem
    exact h item (by omega)
  · rfl

/-! ## One node -/

namespace Expr

section
variable {read read' : Json → Option Expr} {n : Nat} (hread : ∀ j, nesting j ≤ n → read j = read' j)
include hread

theorem ofRecord?_congr_read {r : Record} (hr : ∀ m ∈ r.members, nesting m.2 ≤ n) (kind : Kind) :
    ofRecord? read r kind = ofRecord? read' r kind := by
  have hslot (name : String) : r.operand name (Json.toOption? read) = r.operand name (Json.toOption? read') :=
    Record.operand_congr fun j hj => Json.toOption?_congr (hread j (Record.nesting_get?_le hr hj))
  have hslots (name : String) : r.withDefault name [] (Json.toList? (Json.toOption? read)) =
      r.withDefault name [] (Json.toList? (Json.toOption? read')) :=
    Record.withDefault_congr fun j hj =>
      Json.toList?_congr (fun k hk => Json.toOption?_congr (hread k hk)) (Record.nesting_get?_le hr hj)
  cases kind <;> simp only [ofRecord?, hslot, hslots]

/-- A node reads the nodes below it, which are less nested than it is. -/
theorem readNode_congr_read (place : Place) {j : Json} (hj : nesting j ≤ n + 1) :
    readNode place read j = readNode place read' j := by
  have hrecord {r? : Option Record} (h : ∀ r, r? = some r → ∀ m ∈ r.members, nesting m.2 ≤ n) (kind : Kind) :
      (r?.bind fun r => ofRecord? read r kind) = r?.bind fun r => ofRecord? read' r kind := by
    cases hr : r? with
    | none => rfl
    | some r => exact ofRecord?_congr_read hread (h r hr) kind
  unfold readNode
  split
  · next members =>
    rw [nesting] at hj
    have hmembers := Json.nestingMembers_le_iff.1 (Nat.le_of_succ_le_succ hj)
    split
    · next tag htag =>
      apply Option.bind_congr
      intro kind _
      apply hrecord
      intro r hr m hm
      rw [Record.members_of_ofMembers? hr] at hm
      exact hmembers m (List.mem_filter.1 hm).1
    · rfl
  · next tag items =>
    rw [nesting] at hj
    have hitems := Json.nestingItems_le_iff.1 (Nat.le_of_succ_le_succ hj)
    apply Option.bind_congr
    intro kind _
    apply hrecord
    intro r hr m hm
    rw [Record.members_of_ofItems? hr] at hm
    exact hitems m.2 (List.mem_cons_of_mem _ (List.of_mem_zip hm).2)
  · rfl

end

/-! ## All nodes -/

/-- A value without parts spells no node. -/
theorem readNode_of_nesting_eq_zero (place : Place) (read : Json → Option Expr) {j : Json} (h : nesting j = 0) :
    readNode place read j = none := by
  cases j with
  | array items => simp [nesting] at h
  | object members => simp [nesting] at h
  | _ => rfl

/-- One level more than a value is nested makes no difference. -/
theorem readWithin_succ {depth : Nat} {j : Json} (h : nesting j ≤ depth) :
    readWithin (depth + 1) j = readWithin depth j := by
  induction depth generalizing j with
  | zero => exact readNode_of_nesting_eq_zero .inner _ (Nat.le_zero.1 h)
  | succ depth ih => exact readNode_congr_read (fun k hk => ih hk) .inner h

/-- The expression that a value spells in a place. -/
def readAt (place : Place) (j : Json) : Option Expr :=
  readNode place (readWithin (nesting j)) j

theorem readWithin_eq_readAt {depth : Nat} {j : Json} (h : nesting j ≤ depth) :
    readWithin depth j = readAt .inner j := by
  induction h with
  | refl => exact (readWithin_succ (Nat.le_refl _)).symm
  | step h ih => rw [readWithin_succ h, ih]

/-- **The nodes below a node are read as every node is.** -/
theorem readAt_eq (place : Place) (j : Json) : readAt place j = readNode place (readAt .inner) j :=
  readNode_congr_read (fun _ hk => readWithin_eq_readAt hk) place (Nat.le_succ _)

/-! ## Documents -/

theorem read?_eq_some_iff {j : Json} {e : Expr} :
    read? j = some e ↔ j.readable = true ∧ readAt .outer j = some e := by
  rw [read?]
  split
  · next h => exact ⟨fun hread => ⟨h, hread⟩, fun hread => hread.2⟩
  · next h => exact ⟨fun hread => absurd hread (by simp), fun hread => absurd hread.1 h⟩

section
variable {s : String} {j : Json} (hs : Json.value? s = some j)
include hs

/-- **A document spells an expression** if its value does and it does not nest too deep. -/
theorem parse_eq_ok_iff {e : Expr} : (Document.parse s : Except FormulaError Expr) = .ok e ↔
    Json.bracketDepth s ≤ 127 ∧ read? j = some e := by
  constructor
  · intro h
    unfold Document.parse at h
    split at h
    · next e' hparse =>
      obtain rfl := Except.ok.inj h
      obtain ⟨k, hk, hread⟩ := Option.bind_eq_some_iff.1 hparse
      have hdepth := Json.bracketDepth_le_deepest hk (read?_eq_some_iff.1 hread).1
      rw [Json.parse?_eq_value? hdepth, hs] at hk
      rw [Option.some.inj hk]
      exact ⟨hdepth, hread⟩
    · exact absurd h (by simp)
  · rintro ⟨hdepth, hread⟩
    have hparse : (Json.parse? s).bind (Document.ofJson? : Json → Option Expr) = some e := by
      rw [Json.parse?_eq_value? hdepth, hs]
      exact hread
    rw [Document.parse, hparse]

theorem parse_eq_malformed (h : read? j = none) :
    (Document.parse s : Except FormulaError Expr) = .error .malformed := by
  cases hparse : (Document.parse s : Except FormulaError Expr) with
  | ok e =>
    have hread := ((parse_eq_ok_iff hs).1 hparse).2
    rw [h] at hread
    exact absurd hread (by simp)
  | error error =>
    unfold Document.parse at hparse
    split at hparse
    · exact absurd hparse (by simp)
    · exact hparse.symm

end

end Expr

end Formulary
