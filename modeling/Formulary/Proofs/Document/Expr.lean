import Formulary.Document.Expr
import Formulary.Proofs.Document.DerivedStat

/-!
# Expressions read back

An expression whose literals are all finite is read back from what is written for it, and an expression
with another literal is not, because `null` is written for that: `Expr.readNode_toJson`. The reader needs
as many levels as the value is nested. `Expr.read?_cut` puts the two limits together.
-/

namespace Formulary

open Json (nesting nestingItems nestingMembers Restorable ReadsBack)

/-! ## The kind of a node -/

theorem Kind.ofName?_name (k : Kind) : ofName? k.name = some k := by
  cases k with
  | chain op => cases op <;> decide
  | extremum side => cases side <;> decide
  | _ => decide

theorem Kind.parts_nodup (k : Kind) : k.parts.Nodup ∧ "kind" ∉ k.parts := by
  cases k with
  | chain op => exact ⟨by simp [parts], by simp [parts]⟩
  | extremum side => exact ⟨by simp [parts], by simp [parts]⟩
  | _ => decide

namespace Expr

/-- The object of a node is read as a record of the parts that were written. -/
theorem readNode_nodeJson (place : Place) (read : Json → Option Expr) {kind : Kind}
    {parts : List (String × Json)} (h : parts.map (·.1) = kind.parts) :
    readNode place read (nodeJson kind parts) = ofRecord? read ⟨false, parts⟩ kind := by
  obtain ⟨hnodup, hkind⟩ := kind.parts_nodup
  have hne {m : String × Json} (hm : m ∈ parts) : m.1 ≠ "kind" := by
    intro heq
    exact hkind (heq ▸ h ▸ List.mem_map_of_mem hm)
  have htag : (("kind", Json.text kind.name) :: parts).filter (·.1 = "kind") = [("kind", .text kind.name)] := by
    rw [List.filter_cons_of_pos (by simp), List.filter_eq_nil_iff.2]
    intro m hm
    simpa using hne hm
  have hrest : (("kind", Json.text kind.name) :: parts).filter (·.1 ≠ "kind") = parts := by
    rw [List.filter_cons_of_neg (by simp), List.filter_eq_self.2]
    intro m hm
    simpa using hne hm
  simp only [nodeJson, readNode, htag, hrest, Kind.read?, Kind.ofName?_name, Option.bind_eq_bind,
    Option.bind_some, Record.ofMembers?_of_nodup h hnodup]

theorem toJson_ne_null (e : Expr) : toJson e ≠ .null := by
  cases e <;> simp [toJson, nodeJson]

theorem one_le_nesting_toJson (e : Expr) : 1 ≤ nesting (toJson e) := by
  cases e <;> simp [toJson, nodeJson, nesting]

/-! ## Literals -/

mutual

/-- The literals of a tree, in reading order. -/
def constants : Expr → List Float
  | .constant x => [x]
  | .chain _ xs | .extremum _ xs => slotsConstants xs
  | .power a b | .logarithmic a b => slotConstants a ++ slotConstants b
  | .exponential a => slotConstants a
  | .clamp a b c => slotConstants a ++ (slotConstants b ++ slotConstants c)
  | .euler | .coreStat _ | .derivedStat _ | .mastery => []

def slotConstants : Option Expr → List Float
  | none => []
  | some e => constants e

def slotsConstants : List (Option Expr) → List Float
  | [] => []
  | x :: xs => slotConstants x ++ slotsConstants xs

end

/-- Whether a document can hold all literals of a tree as numbers. -/
def isFinite (e : Expr) : Bool :=
  e.constants.all Float.isFinite

def slotIsFinite (x : Option Expr) : Bool :=
  (slotConstants x).all Float.isFinite

def slotsAreFinite (xs : List (Option Expr)) : Bool :=
  (slotsConstants xs).all Float.isFinite

/-! ## Reading back -/

theorem ofRecord?_chain (positional : Bool) (read : Json → Option Expr) (op : Operator) (xs : List Json) :
    ofRecord? read ⟨positional, [("values", .array xs)]⟩ (.chain op) =
      (xs.mapM (Json.toOption? read)).bind fun xs => some (.chain op xs) := by
  simp [ofRecord?, Record.withDefault, Record.get?, Json.toList?, Option.map_eq_bind]

theorem ofRecord?_extremum (positional : Bool) (read : Json → Option Expr) (side : Extremum) (xs : List Json) :
    ofRecord? read ⟨positional, [("expressions", .array xs)]⟩ (.extremum side) =
      (xs.mapM (Json.toOption? read)).bind fun xs => some (.extremum side xs) := by
  simp [ofRecord?, Record.withDefault, Record.get?, Json.toList?, Option.map_eq_bind]

theorem ofRecord?_exponential (positional : Bool) (read : Json → Option Expr) (a : Json) :
    ofRecord? read ⟨positional, [("power", a)]⟩ .exponential =
      (Json.toOption? read a).bind fun a => some (.exponential a) := by
  simp [ofRecord?, Record.operand, Record.get?, Option.map_eq_bind]

theorem ofRecord?_power (positional : Bool) (read : Json → Option Expr) (a b : Json) :
    ofRecord? read ⟨positional, [("base", a), ("exponent", b)]⟩ .power =
      (Json.toOption? read a).bind fun a => (Json.toOption? read b).bind fun b => some (.power a b) := by
  simp [ofRecord?, Record.operand, Record.get?]

theorem ofRecord?_logarithmic (positional : Bool) (read : Json → Option Expr) (a b : Json) :
    ofRecord? read ⟨positional, [("base", a), ("power", b)]⟩ .logarithmic =
      (Json.toOption? read a).bind fun a => (Json.toOption? read b).bind fun b =>
        some (.logarithmic a b) := by
  simp [ofRecord?, Record.operand, Record.get?]

theorem ofRecord?_clamp (positional : Bool) (read : Json → Option Expr) (a b c : Json) :
    ofRecord? read ⟨positional, [("value", a), ("min", b), ("max", c)]⟩ .clamp =
      (Json.toOption? read a).bind fun a => (Json.toOption? read b).bind fun b =>
        (Json.toOption? read c).bind fun c => some (.clamp a b c) := by
  simp [ofRecord?, Record.operand, Record.get?]

mutual

/-- **A node is read back** if its literals are finite, by a reader that may go as deep as it is nested. -/
theorem readNode_toJson (place : Place) : ∀ (e : Expr) (depth : Nat), nesting (toJson e) ≤ depth + 1 →
    readNode place (readWithin depth) (toJson e) = Option.guard isFinite e
  | .constant x, depth, _ => by
    rw [toJson, readNode_nodeJson place _ rfl]
    cases hx : x.isFinite with
    | false => simp [ofRecord?, Record.required, Record.get?, Json.ofFloat, Json.toFloat?, hx, isFinite, constants,
        Option.guard]
    | true => simp [ofRecord?, Record.required, Record.get?, Json.ofFloat, Json.toFloat?, hx, isFinite, constants,
        Option.guard]
  | .euler, depth, _ => by
    rw [toJson, readNode_nodeJson place _ rfl]
    rfl
  | .mastery, depth, _ => by
    rw [toJson, readNode_nodeJson place _ rfl]
    rfl
  | .coreStat stat, depth, _ => by
    rw [toJson, readNode_nodeJson place _ rfl]
    rfl
  | .derivedStat stat, depth, _ => by
    rw [toJson, readNode_nodeJson place _ rfl]
    simp [ofRecord?, Record.required, Record.get?, DerivedStat.read?_toJson, Option.guard, isFinite, constants]
  | .chain op xs, depth, h => by
    simp only [toJson, nodeJson, nesting, nestingMembers] at h
    have hxs := readSlots_slotsJson xs depth (by omega)
    rw [toJson, readNode_nodeJson place _ rfl, ofRecord?_chain, hxs]
    exact guard_bind rfl
  | .extremum side xs, depth, h => by
    simp only [toJson, nodeJson, nesting, nestingMembers] at h
    have hxs := readSlots_slotsJson xs depth (by omega)
    rw [toJson, readNode_nodeJson place _ rfl, ofRecord?_extremum, hxs]
    exact guard_bind rfl
  | .exponential a, depth, h => by
    simp only [toJson, nodeJson, nesting, nestingMembers] at h
    have ha := readSlot_slotJson a depth (by omega)
    rw [toJson, readNode_nodeJson place _ rfl, ofRecord?_exponential, ha]
    exact guard_bind rfl
  | .power a b, depth, h => by
    simp only [toJson, nodeJson, nesting, nestingMembers] at h
    have ha := readSlot_slotJson a depth (by omega)
    have hb := readSlot_slotJson b depth (by omega)
    rw [toJson, readNode_nodeJson place _ rfl, ofRecord?_power, ha, hb]
    exact guard_bind_two List.all_append
  | .logarithmic a b, depth, h => by
    simp only [toJson, nodeJson, nesting, nestingMembers] at h
    have ha := readSlot_slotJson a depth (by omega)
    have hb := readSlot_slotJson b depth (by omega)
    rw [toJson, readNode_nodeJson place _ rfl, ofRecord?_logarithmic, ha, hb]
    exact guard_bind_two List.all_append
  | .clamp a b c, depth, h => by
    simp only [toJson, nodeJson, nesting, nestingMembers] at h
    have ha := readSlot_slotJson a depth (by omega)
    have hb := readSlot_slotJson b depth (by omega)
    have hc := readSlot_slotJson c depth (by omega)
    rw [toJson, readNode_nodeJson place _ rfl, ofRecord?_clamp, ha, hb, hc]
    refine guard_bind_three ?_
    rw [isFinite, constants, List.all_append, List.all_append]
    rfl

/-- An operand is read back. -/
theorem readSlot_slotJson : ∀ (x : Option Expr) (depth : Nat), nesting (slotJson x) ≤ depth →
    Json.toOption? (readWithin depth) (slotJson x) = Option.guard slotIsFinite x
  | none, depth, _ => rfl
  | some e, 0, h => by
    have := one_le_nesting_toJson e
    rw [slotJson] at h
    omega
  | some e, depth + 1, h => by
    rw [slotJson] at h
    rw [slotJson, Json.toOption?_of_ne_null (toJson_ne_null e), readWithin, readNode_toJson .inner e depth h,
      Option.map_eq_bind]
    exact guard_bind rfl

/-- Some operands are read back. -/
theorem readSlots_slotsJson : ∀ (xs : List (Option Expr)) (depth : Nat), nestingItems (slotsJson xs) ≤ depth →
    (slotsJson xs).mapM (Json.toOption? (readWithin depth)) = Option.guard slotsAreFinite xs
  | [], _, _ => rfl
  | x :: xs, depth, h => by
    rw [slotsJson, nestingItems] at h
    rw [slotsJson, List.mapM_cons, readSlot_slotJson x depth (by omega), readSlots_slotsJson xs depth (by omega)]
    exact guard_bind_two List.all_append

end

/-! ## What is written for an expression -/

mutual

theorem readable_toJson : ∀ e : Expr, (toJson e).readable = true
  | .constant x => by
    cases hx : x.isFinite <;> simp [toJson, nodeJson, Json.ofFloat, hx, Json.readable, Json.readableMembers]
  | .chain op xs => by
    simp [toJson, nodeJson, Json.readable, Json.readableMembers, readableItems_slotsJson xs]
  | .extremum side xs => by
    simp [toJson, nodeJson, Json.readable, Json.readableMembers, readableItems_slotsJson xs]
  | .power a b => by
    simp [toJson, nodeJson, Json.readable, Json.readableMembers, readable_slotJson a, readable_slotJson b]
  | .exponential a => by
    simp [toJson, nodeJson, Json.readable, Json.readableMembers, readable_slotJson a]
  | .logarithmic a b => by
    simp [toJson, nodeJson, Json.readable, Json.readableMembers, readable_slotJson a, readable_slotJson b]
  | .clamp a b c => by
    simp [toJson, nodeJson, Json.readable, Json.readableMembers, readable_slotJson a, readable_slotJson b,
      readable_slotJson c]
  | .derivedStat stat => by
    simp [toJson, nodeJson, Json.readable, Json.readableMembers, stat.readable_toJson]
  | .coreStat stat => by simp [toJson, nodeJson, Json.readable, Json.readableMembers, Document.toJson]
  | .euler => rfl
  | .mastery => rfl

theorem readable_slotJson : ∀ x : Option Expr, (slotJson x).readable = true
  | none => rfl
  | some e => readable_toJson e

theorem readableItems_slotsJson : ∀ xs : List (Option Expr), Json.readableItems (slotsJson xs) = true
  | [] => rfl
  | x :: xs => by
    rw [slotsJson, Json.readableItems, readable_slotJson x, readableItems_slotsJson xs, Bool.and_self]

end

mutual

/-- What is written for an expression can be read again if its finite literals can. -/
theorem restorable_toJson : ∀ e : Expr, (∀ x ∈ e.constants, x.isFinite = true → ReadsBack x) →
    Restorable (toJson e)
  | .constant x, h => by
    have hx := h x (by simp [constants])
    cases hfin : x.isFinite with
    | false => simp [toJson, nodeJson, Json.ofFloat, hfin, Restorable, Json.RestorableMembers]
    | true => simp [toJson, nodeJson, Json.ofFloat, hfin, Restorable, Json.RestorableMembers, hx hfin]
  | .chain op xs, h => by
    simp [toJson, nodeJson, Restorable, Json.RestorableMembers, restorableItems_slotsJson xs h]
  | .extremum side xs, h => by
    simp [toJson, nodeJson, Restorable, Json.RestorableMembers, restorableItems_slotsJson xs h]
  | .power a b, h => by
    simp only [constants, List.mem_append] at h
    simp [toJson, nodeJson, Restorable, Json.RestorableMembers,
      restorable_slotJson a fun x hx => h x (.inl hx), restorable_slotJson b fun x hx => h x (.inr hx)]
  | .exponential a, h => by
    simp [toJson, nodeJson, Restorable, Json.RestorableMembers, restorable_slotJson a h]
  | .logarithmic a b, h => by
    simp only [constants, List.mem_append] at h
    simp [toJson, nodeJson, Restorable, Json.RestorableMembers,
      restorable_slotJson a fun x hx => h x (.inl hx), restorable_slotJson b fun x hx => h x (.inr hx)]
  | .clamp a b c, h => by
    simp only [constants, List.mem_append] at h
    simp [toJson, nodeJson, Restorable, Json.RestorableMembers,
      restorable_slotJson a fun x hx => h x (.inl hx),
      restorable_slotJson b fun x hx => h x (.inr (.inl hx)),
      restorable_slotJson c fun x hx => h x (.inr (.inr hx))]
  | .derivedStat stat, _ => by
    simp [toJson, nodeJson, Restorable, Json.RestorableMembers, stat.restorable_toJson]
  | .coreStat stat, _ => by simp [toJson, nodeJson, Restorable, Json.RestorableMembers, Document.toJson]
  | .euler, _ => by simp [toJson, nodeJson, Restorable, Json.RestorableMembers]
  | .mastery, _ => by simp [toJson, nodeJson, Restorable, Json.RestorableMembers]

theorem restorable_slotJson : ∀ x : Option Expr, (∀ c ∈ slotConstants x, c.isFinite = true → ReadsBack c) →
    Restorable (slotJson x)
  | none, _ => by simp [slotJson, Restorable]
  | some e, h => restorable_toJson e h

theorem restorableItems_slotsJson : ∀ xs : List (Option Expr),
    (∀ c ∈ slotsConstants xs, c.isFinite = true → ReadsBack c) → Json.RestorableItems (slotsJson xs)
  | [], _ => by simp [slotsJson, Json.RestorableItems]
  | x :: xs, h => by
    simp only [slotsConstants, List.mem_append] at h
    constructor
    · exact restorable_slotJson x fun c hc => h c (.inl hc)
    · exact restorableItems_slotsJson xs fun c hc => h c (.inr hc)

end

/-- Whether an expression is read back by a reader that builds `depth` levels. -/
def fits (depth : Nat) (e : Expr) : Bool :=
  e.isFinite && decide (nesting (toJson e) ≤ depth)

/-- **An expression is read back** from the outermost levels of what is written for it if its literals are
finite and those levels are all there is. -/
theorem read?_cut (depth : Nat) (e : Expr) : read? (Json.cut depth (toJson e)) = Option.guard (fits depth) e := by
  by_cases hdepth : nesting (toJson e) ≤ depth
  · have hfits : fits depth e = e.isFinite := by
      rw [fits, decide_eq_true hdepth, Bool.and_true]
    rw [Json.cut_of_nesting_le _ hdepth, read?, if_pos (readable_toJson e),
      readNode_toJson .outer e _ (Nat.le_succ _)]
    simp [Option.guard, hfits]
  · have hfits : fits depth e = false := by
      rw [fits, decide_eq_false hdepth, Bool.and_false]
    rw [read?, Json.readable_cut _ (Nat.lt_of_not_le hdepth)]
    simp [Option.guard, hfits]

end Expr

end Formulary
