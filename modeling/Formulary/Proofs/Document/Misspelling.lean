import Formulary.Proofs.Document.Spelling

/-!
# Spellings that are not read

One more item at the end of an array that spells a record, or one item less in an array that ends in an operand,
and the record is not read. Nor is anything around it, up to the root (`Expr.readAt_spell_of_below`).
-/

namespace Formulary

open Json (bracketDepth ReadsBack)

def Kind.EndsInOperand : Kind → Prop
  | .power | .exponential | .logarithmic | .clamp => True
  | _ => False

/-- A list is not read if one of its items is not. -/
theorem mapM_eq_none_of_mem {α β : Type} {f : α → Option β} {xs : List α} {x : α} (hx : x ∈ xs) (h : f x = none) :
    xs.mapM f = none := by
  induction xs with
  | nil => exact absurd hx List.not_mem_nil
  | cons y ys ih =>
    rw [List.mapM_cons]
    rcases List.mem_cons.1 hx with rfl | hx
    · rw [h]
      rfl
    · rw [ih hx]
      cases f y <;> rfl

/-! ## Arrays that are too long or too short -/

theorem Modifier.read?_longer (place : Place) (m : Modifier) (item : Json) :
    Modifier.read? place (m.spell (.longer item)) = none := by
  have hr : Record.ofJson? ["stat", "weight", "op"] (m.spell (.longer item)) = none :=
    Form.ofItems?_longer (by rfl) item
  rw [Modifier.read?, hr]
  rfl

theorem DerivedStat.read?_longer (place : Place) (d : DerivedStat) {w : Spelling} {item : Json}
    (hw : w.form [] = .longer item) : DerivedStat.read? place (d.spell w) = none := by
  have hr : Record.ofJson? ["id", "modifiers"] (d.spell w) = none := by
    rw [DerivedStat.spell, hw]
    exact Form.ofItems?_longer (by rfl) item
  rw [DerivedStat.read?, hr]
  rfl

/-- A derived stat is not read if one of its modifiers is not. -/
theorem DerivedStat.read?_of_modifier (place : Place) (d : DerivedStat) {w : Spelling} {index : Nat} {item : Json}
    (hindex : index < d.modifiers.length) (hform : (w.form []).IsWhole) (hw : w.form [index] = .longer item) :
    DerivedStat.read? place (d.spell w) = none := by
  have hmodifiers : (d.modifiers.mapIdx fun index m => m.spell (w.form [index])).mapM (Modifier.read? place) =
      none := by
    refine mapM_eq_none_of_mem (List.mem_mapIdx.2 ⟨index, hindex, rfl⟩) ?_
    rw [hw]
    exact Modifier.read?_longer place _ item
  rw [d.read?_spell_eq place hform, hmodifiers]
  rfl

namespace Expr

theorem readAt_node_longer (place : Place) {kind : Kind} {parts : List (String × Json)}
    (h : parts.map (·.1) = kind.parts) (item : Json) : readAt place ((Form.longer item).node kind parts) = none := by
  rw [Form.node, Form.write, List.map_cons, List.cons_append, readAt_array, Form.ofItems?_longer h]
  rfl

theorem readAt_spell_longer (place : Place) (e : Expr) {w : Spelling} {item : Json} (hw : w.form [] = .longer item) :
    readAt place (spell w e) = none := by
  cases e <;> rw [spell, hw] <;> exact readAt_node_longer place rfl item

/-- Without its last item an array gives all parts but the last. -/
theorem readAt_node_shorter (place : Place) {kind : Kind} (parts : List (String × Json)) {last : String × Json}
    (h : (parts ++ [last]).map (·.1) = kind.parts) :
    readAt place (Form.shorter.node kind (parts ++ [last])) = ofRecord? (readAt .inner) ⟨true, parts⟩ kind := by
  have hwrite : Form.shorter.node kind (parts ++ [last]) = .array (.text kind.name :: parts.map (·.2)) := by
    rw [Form.node, Form.write, List.map_cons, List.map_append, ← List.cons_append]
    exact congrArg Json.array List.dropLast_concat
  have hlength : (parts.map (·.2)).length ≤ kind.parts.length := by
    rw [← h, List.length_map, List.length_map, List.length_append]
    omega
  have hzip : kind.parts.zip (parts.map (·.2)) = parts := by
    have hlengths : (parts.map (·.1)).length = (parts.map (·.2)).length := by rw [List.length_map, List.length_map]
    rw [← h, List.map_append, ← List.append_nil (parts.map (·.2)), List.zip_append hlengths, ← List.zip_of_prod rfl rfl]
    simp
  rw [hwrite, readAt_array, Record.ofItems?, if_pos hlength, hzip]
  rfl

/-- In an array the last operand has to be given. -/
theorem readAt_spell_shorter (place : Place) {e : Expr} (he : e.kind.EndsInOperand) {w : Spelling}
    (hw : w.form [] = .shorter) : readAt place (spell w e) = none := by
  cases e with
  | exponential a =>
    rw [spell, hw]
    refine (readAt_node_shorter place [] rfl).trans ?_
    simp [ofRecord?, Record.operand, Record.get?]
  | power a b =>
    rw [spell, hw]
    refine (readAt_node_shorter place [_] rfl).trans ?_
    simp [ofRecord?, Record.operand, Record.get?]
  | logarithmic a b =>
    rw [spell, hw]
    refine (readAt_node_shorter place [_] rfl).trans ?_
    simp [ofRecord?, Record.operand, Record.get?]
  | clamp a b c =>
    rw [spell, hw]
    refine (readAt_node_shorter place [_, _] rfl).trans ?_
    simp [ofRecord?, Record.operand, Record.get?]
  | _ => exact absurd he id

/-! ## From the inside out -/

theorem spellSlot_mem_spellSlots {w : Spelling} {xs : List (Option Expr)} {x : Option Expr} {i : Nat}
    (h : xs[i]? = some x) (index : Nat) : spellSlot (w.below [index + i]) x ∈ spellSlots w index xs := by
  induction xs generalizing i index with
  | nil => exact absurd h (by simp)
  | cons y ys ih =>
    rw [spellSlots]
    cases i with
    | zero =>
      obtain rfl := Option.some.inj h
      exact List.mem_cons_self
    | succ i =>
      have hmem := ih (i := i) h (index + 1)
      rw [Nat.add_right_comm] at hmem
      exact List.mem_cons_of_mem _ hmem

/-- A node is not read if one of its operands is not. -/
theorem readAt_spell_of_slot (place : Place) {e c : Expr} {w : Spelling} {i : Nat} (hform : (w.form []).IsWhole)
    (hslot : e.slots[i]? = some (some c)) (hc : readAt .inner (spell (w.below [i]) c) = none) :
    readAt place (spell w e) = none := by
  have hnone : Json.toOption? (readAt .inner) (spellSlot (w.below [i]) (some c)) = none := by
    rw [spellSlot, Json.toOption?_of_ne_null (spell_ne_null _ c), hc]
    rfl
  have hslots {xs : List (Option Expr)} (h : xs[i]? = some (some c)) :
      (spellSlots w 0 xs).mapM (Json.toOption? (readAt .inner)) = none := by
    have hmem := spellSlot_mem_spellSlots (w := w) h 0
    rw [Nat.zero_add] at hmem
    exact mapM_eq_none_of_mem hmem hnone
  cases e with
  | chain op xs =>
    have hxs : xs[i]? = some (some c) := hslot
    rw [spell, readAt_node place rfl hform, ofRecord?_chain, hslots hxs]
    rfl
  | extremum side xs =>
    have hxs : xs[i]? = some (some c) := hslot
    rw [spell, readAt_node place rfl hform, ofRecord?_extremum, hslots hxs]
    rfl
  | exponential x =>
    rw [spell, readAt_node place rfl hform, ofRecord?_exponential]
    match i, hslot with
    | 0, h => rw [show x = some c from Option.some.inj h, hnone]; rfl
  | power x y =>
    rw [spell, readAt_node place rfl hform, ofRecord?_power]
    match i, hslot with
    | 0, h => rw [show x = some c from Option.some.inj h, hnone]; rfl
    | 1, h => rw [show y = some c from Option.some.inj h, hnone]; simp
  | logarithmic x y =>
    rw [spell, readAt_node place rfl hform, ofRecord?_logarithmic]
    match i, hslot with
    | 0, h => rw [show x = some c from Option.some.inj h, hnone]; rfl
    | 1, h => rw [show y = some c from Option.some.inj h, hnone]; simp
  | clamp x y z =>
    rw [spell, readAt_node place rfl hform, ofRecord?_clamp]
    match i, hslot with
    | 0, h => rw [show x = some c from Option.some.inj h, hnone]; rfl
    | 1, h => rw [show y = some c from Option.some.inj h, hnone]; simp
    | 2, h => rw [show z = some c from Option.some.inj h, hnone]; simp
  | _ => exact absurd hslot (by simp [slots])

/-- **A tree is not read if one of its nodes is not**, whichever the place of that node. -/
theorem readAt_spell_of_below {n : Expr} : ∀ (a : Address) (e : Expr) (w : Spelling), e.at? a = some n →
    (∀ b : Address, b.length < a.length → (w.form b).IsWhole) →
    (∀ place, readAt place (spell (w.below a) n) = none) → ∀ place, readAt place (spell w e) = none
  | [], e, w, hat, _, hn, place => by
    obtain rfl := Option.some.inj hat
    exact hn place
  | i :: rest, e, w, hat, hw, hn, place => by
    rw [at?] at hat
    split at hat
    · next c hslot =>
      refine readAt_spell_of_slot place (hw [] (Nat.zero_lt_succ _)) hslot ?_
      refine readAt_spell_of_below rest c (w.below [i]) hat (fun b hb => ?_) hn .inner
      exact hw (i :: b) (Nat.succ_lt_succ hb)
    · exact absurd hat (by simp)

theorem readAt_spell_derivedStat (place : Place) {d : DerivedStat} {w : Spelling} (hform : (w.form []).IsWhole)
    (h : DerivedStat.read? .inner (d.spell (w.below [0])) = none) : readAt place (spell w (.derivedStat d)) = none := by
  rw [spell, readAt_node place rfl hform]
  simp [ofRecord?, Record.required, Record.get?, h]

/-- The addresses of the records that are spelled for a tree. -/
inductive HasRecord (e : Expr) : Address → Prop where
  | node {a : Address} {n : Expr} : e.at? a = some n → e.HasRecord a
  | stat {a : Address} {d : DerivedStat} : e.at? a = some (.derivedStat d) → e.HasRecord (a ++ [0])
  | modifier {a : Address} {d : DerivedStat} {index : Nat} :
    e.at? a = some (.derivedStat d) → index < d.modifiers.length → e.HasRecord (a ++ [0, index])

section
variable {e : Expr} {w : Spelling} {a : Address} (hothers : ∀ b, b ≠ a → (w.form b).IsWhole)
include hothers

/-- A tree is not read if one of its records is too long. -/
theorem readAt_spell_of_longer (place : Place) {item : Json} (ha : e.HasRecord a) (hw : w.form a = .longer item) :
    readAt place (spell w e) = none := by
  cases ha with
  | node hat =>
    refine readAt_spell_of_below a e w hat (fun b hb => hothers b ?_) (fun place => ?_) place
    · rintro rfl
      exact Nat.lt_irrefl _ hb
    · have hform : (w.below a).form [] = .longer item := by rw [Spelling.form_below_nil, hw]
      exact readAt_spell_longer place _ hform
  | @stat a d hat =>
    refine readAt_spell_of_below a e w hat (fun b hb => hothers b ?_) (fun place => ?_) place
    · rintro rfl
      simp at hb
    · refine readAt_spell_derivedStat place (hothers (a ++ []) (by simp)) ?_
      exact d.read?_longer .inner hw
  | @modifier a d index hat hindex =>
    refine readAt_spell_of_below a e w hat (fun b hb => hothers b ?_) (fun place => ?_) place
    · rintro rfl
      simp at hb
    · refine readAt_spell_derivedStat place (hothers (a ++ []) (by simp)) ?_
      exact d.read?_of_modifier .inner hindex (hothers (a ++ [0]) (by simp)) hw

/-- A tree is not read if a node lacks its last operand. -/
theorem readAt_spell_of_shorter (place : Place) {n : Expr} (hat : e.at? a = some n) (hn : n.kind.EndsInOperand)
    (hw : w.form a = .shorter) : readAt place (spell w e) = none := by
  refine readAt_spell_of_below a e w hat (fun b hb => hothers b ?_) (fun place => ?_) place
  · rintro rfl
    exact Nat.lt_irrefl _ hb
  · refine readAt_spell_shorter place hn ?_
    rw [Spelling.form_below_nil, hw]

end

/-! ## Documents -/

theorem toFloat?_ofFloat {x : Float} (h : x.isFinite = true) : (Json.ofFloat x).toFloat? = some x := by
  rw [Json.ofFloat, if_pos h]
  rfl

theorem readable_of_toFloat? {j : Json} {x : Float} (h : j.toFloat? = some x) : j.readable = true := by
  cases j with
  | real x => rfl
  | whole n => rfl
  | _ => exact absurd h (by simp [Json.toFloat?])

theorem read?_spell {e : Expr} {w : Spelling} (hw : w.IsWhole) (hx : w.IsExact e.constants) :
    read? (spell w e) = some e := by
  refine read?_eq_some_iff.2 ⟨?_, readAt_spell .outer e w hw hx⟩
  exact holds_spell Json.hereditary_readable e w hw fun x h a => readable_of_toFloat? (hx x h a)

theorem read?_eq_none {j : Json} (h : readAt .outer j = none) : read? j = none := by
  cases hread : read? j with
  | none => rfl
  | some e =>
    rw [(read?_eq_some_iff.1 hread).2] at h
    exact absurd h (by simp)

/-- **Arrays and objects spell the same tree.** Each node, derived stat and modifier may be spelled as an object of all
its parts or as an array of them, and every document of such a value is read as the tree; so is the text that is
written for it. But if just one of these arrays has one more item at its end, or that of a node that ends in an
operand one less, then the document is refused. -/
theorem parse_spell (e : Expr) :
    (∀ w : Spelling, w.IsWhole → w.IsExact e.constants → ∀ s, Json.value? s = some (spell w e) →
      bracketDepth s ≤ 127 → (Document.parse s : Except FormulaError Expr) = .ok e) ∧
    (∀ w : Spelling, w.IsWhole → (w.number = fun _ => Json.ofFloat) →
      (∀ x ∈ e.constants, x.isFinite = true ∧ ReadsBack x) → ∀ layout,
      bracketDepth ((spell w e).render layout) ≤ 127 →
        (Document.parse ((spell w e).render layout) : Except FormulaError Expr) = .ok e) ∧
    (∀ (w : Spelling) (a : Address) (item : Json), e.HasRecord a → w.form a = .longer item →
      (∀ b, b ≠ a → (w.form b).IsWhole) → ∀ s, Json.value? s = some (spell w e) →
        (Document.parse s : Except FormulaError Expr) = .error .malformed) ∧
    ∀ (w : Spelling) (a : Address) (n : Expr), e.at? a = some n → n.kind.EndsInOperand → w.form a = .shorter →
      (∀ b, b ≠ a → (w.form b).IsWhole) → ∀ s, Json.value? s = some (spell w e) →
        (Document.parse s : Except FormulaError Expr) = .error .malformed := by
  refine ⟨?_, ?_, ?_, ?_⟩
  · intro w hw hx s hs hdepth
    exact (parse_eq_ok_iff hs).2 ⟨hdepth, read?_spell hw hx⟩
  · intro w hw hnumber hx layout hdepth
    have hexact : w.IsExact e.constants := by
      intro x h a
      rw [hnumber]
      exact toFloat?_ofFloat (hx x h).1
    have hrestorable : Json.Restorable (spell w e) := by
      refine holds_spell Json.hereditary_restorable e w hw fun x h a => ?_
      rw [hnumber]
      show Json.Restorable (Json.ofFloat x)
      rw [Json.ofFloat, if_pos (hx x h).1, Json.Restorable]
      exact (hx x h).2
    exact (parse_eq_ok_iff (Json.value?_render layout hrestorable)).2 ⟨hdepth, read?_spell hw hexact⟩
  · intro w a item ha hw hothers s hs
    exact parse_eq_malformed hs (read?_eq_none (readAt_spell_of_longer hothers .outer ha hw))
  · intro w a n hat hn hw hothers s hs
    exact parse_eq_malformed hs (read?_eq_none (readAt_spell_of_shorter hothers .outer hat hn hw))

def healthPower : Expr :=
  .power (some (.constant 2)) (some (.derivedStat ⟨⟨"HP"⟩, [⟨⟨"STR"⟩, 3, .addition⟩]⟩))

/-- A spelling of everything as arrays except for the two operands, with one address spelled in a form of its own. -/
def mixed (a : Address) (f : Form) : Spelling where
  form b := if b = a then f else if b = [0] ∨ b = [1] then .object else .array
  number _ := .ofFloat

theorem isWhole_mixed (a b : Address) (f : Form) (h : b ≠ a) : ((mixed a f).form b).IsWhole := by
  simp only [mixed, if_neg h]
  split <;> trivial

theorem parse_healthPower :
    (Document.parse ((spell (mixed [1, 0] .array) healthPower).render .compact) : Except FormulaError Expr) =
        .ok healthPower ∧
      (Document.parse ((spell (mixed [1, 0] (.longer .null)) healthPower).render .compact) :
        Except FormulaError Expr) = .error .malformed ∧
      (Document.parse ((spell (mixed [] .shorter) healthPower).render .compact) : Except FormulaError Expr) =
        .error .malformed := by
  have htwo : Json.Restorable (Json.ofFloat 2) := by
    rw [Json.ofFloat, if_pos (by decide +kernel), Json.Restorable]
    decide +kernel
  have hlonger : Json.Restorable (spell (mixed [1, 0] (.longer .null)) healthPower) := by
    show Json.Restorable (.array [.text "power", .object [("kind", .text "constant"), ("value", Json.ofFloat 2)],
      .object [("kind", .text "derived_stat_lookup"),
        ("stat", .array [.text "HP", .array [.array [.text "STR", .whole 3, .text "addition"]], .null])]])
    simp [Json.Restorable, Json.RestorableItems, Json.RestorableMembers, Json.Fits, htwo]
  have hshorter : Json.Restorable (spell (mixed [] .shorter) healthPower) := by
    show Json.Restorable (.array [.text "power", .object [("kind", .text "constant"), ("value", Json.ofFloat 2)]])
    simp [Json.Restorable, Json.RestorableItems, Json.RestorableMembers, htwo]
  refine ⟨?_, ?_, ?_⟩
  · refine (parse_spell healthPower).2.1 (mixed [1, 0] .array) (fun b => ?_) rfl ?_ .compact ?_
    · by_cases h : b = [1, 0]
      · rw [mixed, h]
        trivial
      · exact isWhole_mixed [1, 0] b .array h
    · decide +kernel
    · rw [Json.bracketDepth_render]
      decide +kernel
  · exact (parse_spell healthPower).2.2.1 (mixed [1, 0] (.longer .null)) [1, 0] .null (.stat (a := [1]) rfl) rfl
      (fun b h => isWhole_mixed [1, 0] b _ h) _ (Json.value?_render .compact hlonger)
  · exact (parse_spell healthPower).2.2.2 (mixed [] .shorter) [] healthPower rfl trivial rfl
      (fun b h => isWhole_mixed [] b _ h) _ (Json.value?_render .compact hshorter)

end Expr

end Formulary
