import Formulary.Proofs.Context.Extras
import Formulary.Proofs.Document.Records

/-!
# Expressions kept in a context

A context keeps the document form of an expression as a value and not as text, and in canonical form. The order of
members does not matter to the reader (`Expr.ignoresOrder`), and the depth has no limit: `Context.get?_put_expr`.
-/

namespace Formulary

open Json (Distinct nesting)

namespace Expr

/-! ## No name is written twice -/

theorem distinct_nodeJson {kind : Kind} {parts : List (String × Json)} (h : parts.map (·.1) = kind.parts)
    (hparts : ∀ m ∈ parts, Distinct m.2) : Distinct (nodeJson kind parts) := by
  obtain ⟨hnodup, hkind⟩ := kind.parts_nodup
  refine .object ?_ (List.forall_mem_cons.2 ⟨.simple rfl, hparts⟩)
  rw [List.map_cons, h]
  exact List.nodup_cons.2 ⟨hkind, hnodup⟩

theorem distinct_ofFloat (x : Float) : Distinct (.ofFloat x) := by
  rw [Json.ofFloat]
  split <;> exact .simple rfl

mutual

/-- What is written for an expression gives no name twice. -/
theorem distinct_toJson : ∀ e : Expr, Distinct (toJson e)
  | .constant x => distinct_nodeJson rfl (by simp [distinct_ofFloat])
  | .euler => distinct_nodeJson rfl (by simp)
  | .mastery => distinct_nodeJson rfl (by simp)
  | .coreStat stat => distinct_nodeJson rfl (List.forall_mem_singleton.2 (.simple rfl))
  | .derivedStat stat => distinct_nodeJson rfl (List.forall_mem_singleton.2 (stat.plain_toJson 0).distinct)
  | .chain op xs => distinct_nodeJson rfl (List.forall_mem_singleton.2 (.array (distinct_slotsJson xs)))
  | .extremum side xs => distinct_nodeJson rfl (List.forall_mem_singleton.2 (.array (distinct_slotsJson xs)))
  | .exponential a => distinct_nodeJson rfl (by simp [distinct_slotJson a])
  | .power a b => distinct_nodeJson rfl (by simp [distinct_slotJson a, distinct_slotJson b])
  | .logarithmic a b => distinct_nodeJson rfl (by simp [distinct_slotJson a, distinct_slotJson b])
  | .clamp a b c => distinct_nodeJson rfl (by simp [distinct_slotJson a, distinct_slotJson b, distinct_slotJson c])

theorem distinct_slotJson : ∀ x : Option Expr, Distinct (slotJson x)
  | none => .simple rfl
  | some e => distinct_toJson e

theorem distinct_slotsJson : ∀ xs : List (Option Expr), ∀ j ∈ slotsJson xs, Distinct j
  | [] => by simp [slotsJson]
  | x :: xs => List.forall_mem_cons.2 ⟨distinct_slotJson x, distinct_slotsJson xs⟩

end

/-! ## Reading back -/

/-- **An expression is read back from the canonical form of what is written for it** if its literals are finite. -/
theorem read?_canonical_toJson (e : Expr) : read? (toJson e).canonical = Option.guard isFinite e := by
  rw [ignoresOrder e.distinct_toJson, read?, if_pos e.readable_toJson, readNode_toJson .outer e _ (Nat.le_succ _)]

/-- A text that nests too deep spells no expression. -/
theorem parse_of_deepest_lt {s : String} (h : Json.deepest < Json.bracketDepth s) :
    (Document.parse s : Except FormulaError Expr) = .error .malformed := by
  have hread : (Json.parse? s).bind (Document.ofJson? : Json → Option Expr) = none := by
    rw [Option.bind_eq_none_iff]
    intro j hj
    rw [Option.eq_none_iff_forall_ne_some]
    intro e he
    have hreadable := (read?_eq_some_iff.1 he).1
    exact absurd (Json.bracketDepth_le_deepest hj hreadable) (Nat.not_le.2 h)
  rw [Document.parse, hread]

end Expr

namespace Context

/-- **An expression that is kept in a context comes back whole**, however deep it is: kept is what is written for it,
with the members of all objects in the order of their names, and read under the key is the same expression if its
literals are finite, and nothing otherwise. From text it is not read if more than 127 brackets stand inside one
another. -/
theorem get?_put_expr (ctx : Context) (key : String) (e : Expr) :
    (ctx.put key e).extras.get? key = some e.toJson.canonical ∧
      ((ctx.put key e).get? Expr key = if ∀ x ∈ e.constants, x.isFinite = true then some e else none) ∧
      (127 < nesting e.toJson →
        ∀ layout, (Document.parse (e.toJson.render layout) : Except FormulaError Expr) = .error .malformed) := by
  have hkept : (ctx.put key e).extras.get? key = some e.toJson.canonical := by
    rw [put, extras_get?_keep, if_pos rfl]
    rfl
  refine ⟨hkept, ?_, ?_⟩
  · rw [get?, hkept]
    refine e.read?_canonical_toJson.trans ?_
    simp only [Option.guard_eq_ite, Expr.isFinite, List.all_eq_true]
  · intro hdeep layout
    apply Expr.parse_of_deepest_lt
    rw [Json.bracketDepth_render]
    exact hdeep

/-- A negative zero below a number of exponentials. -/
def buried : Nat → Expr
  | 0 => .constant (-0.0)
  | n + 1 => .exponential (some (buried n))

theorem constants_buried (n : Nat) : (buried n).constants = [-0.0] := by
  induction n with
  | zero => rfl
  | succ n ih => exact ih

theorem nesting_buried (n : Nat) : nesting (buried n).toJson = n + 1 := by
  induction n with
  | zero => rfl
  | succ n ih => simp [buried, Expr.toJson, Expr.slotJson, Expr.nodeJson, nesting, Json.nestingMembers, ih]

theorem get?_put_expr_buried :
    (empty.put "omen" (buried 500)).get? Expr "omen" = some (buried 500) ∧
      (Document.parse (Document.text (buried 500)) : Except FormulaError Expr) = .error .malformed ∧
      (empty.put "odds" (Expr.clamp (some .mastery) none (some (.constant (1 / 0))))).get? Expr "odds" = none := by
  obtain ⟨-, hget, htext⟩ := get?_put_expr empty "omen" (buried 500)
  obtain ⟨-, hodds, -⟩ := get?_put_expr empty "odds" (.clamp (some .mastery) none (some (.constant (1 / 0))))
  refine ⟨?_, htext ?_ .compact, ?_⟩
  · rw [hget, constants_buried, if_pos (by decide)]
  · rw [nesting_buried]
    decide
  · rw [hodds, if_neg]
    intro h
    exact absurd (h (1 / 0) (by simp [Expr.constants, Expr.slotConstants])) (by decide)

end Context

end Formulary
