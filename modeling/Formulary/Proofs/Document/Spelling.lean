import Formulary.Proofs.Document.Nodes
import Formulary.Proofs.Document.Expr
import Formulary.Proofs.Expr.Trail

/-!
# Spellings of an expression

A record of a document is spelled as an object, or as an array of its parts in their order. Here each node, derived
stat and modifier of a tree has its own way of being spelled, chosen by its address (`Spelling`). Whatever the
choices, the same tree is read: `Expr.readAt_spell`.
-/

namespace Formulary

open Json (Restorable)

/-! ## Spellings -/

inductive Form where
  | object
  | array
  /-- an array with something beyond the last part -/
  | longer (item : Json)
  /-- an array without the last part -/
  | shorter

namespace Form

/-- Whether a record is spelled with all of its parts and nothing else. -/
def IsWhole : Form → Prop
  | .object | .array => True
  | .longer _ | .shorter => False

def positional : Form → Bool
  | .object => false
  | _ => true

def write (parts : List (String × Json)) : Form → Json
  | .object => .object parts
  | .array => .array (parts.map (·.2))
  | .longer item => .array (parts.map (·.2) ++ [item])
  | .shorter => .array (parts.map (·.2)).dropLast

def node (kind : Kind) (parts : List (String × Json)) (f : Form) : Json :=
  f.write (("kind", .text kind.name) :: parts)

end Form

/-- How the records of a tree are spelled, and its numbers. The records are nodes, and the derived stats below nodes
that look them up, and the modifiers below those. -/
structure Spelling where
  form : Address → Form
  number : Address → Float → Json

def Spelling.below (w : Spelling) (address : Address) : Spelling where
  form inner := w.form (address ++ inner)
  number inner := w.number (address ++ inner)

namespace Spelling

/-- Whether all records are spelled with all of their parts and nothing else. -/
def IsWhole (w : Spelling) : Prop :=
  ∀ a, (w.form a).IsWhole

/-- Whether some numbers are spelled so that they are read as what they are. -/
def IsExact (w : Spelling) (xs : List Float) : Prop :=
  ∀ x ∈ xs, ∀ a, (w.number a x).toFloat? = some x

variable {w : Spelling}

theorem form_below_nil (w : Spelling) (a : Address) : (w.below a).form [] = w.form a :=
  congrArg w.form (List.append_nil a)

theorem IsWhole.below (h : w.IsWhole) (a : Address) : (w.below a).IsWhole :=
  fun b => h (a ++ b)

theorem IsExact.below {xs : List Float} (h : w.IsExact xs) (a : Address) : (w.below a).IsExact xs :=
  fun x hx b => h x hx (a ++ b)

theorem isExact_append {xs ys : List Float} : w.IsExact (xs ++ ys) ↔ w.IsExact xs ∧ w.IsExact ys :=
  List.forall_mem_append

end Spelling

def Modifier.spell (m : Modifier) (f : Form) : Json :=
  f.write [("stat", Document.toJson m.stat), ("weight", Document.toJson m.weight), ("op", Document.toJson m.op)]

def DerivedStat.spell (w : Spelling) (d : DerivedStat) : Json :=
  (w.form []).write [("id", Document.toJson d.id),
    ("modifiers", .array (d.modifiers.mapIdx fun index m => m.spell (w.form [index])))]

namespace Expr

mutual

def spell (w : Spelling) : Expr → Json
  | .constant x => (w.form []).node .constant [("value", w.number [] x)]
  | .euler => (w.form []).node .euler []
  | .chain op xs => (w.form []).node (.chain op) [("values", .array (spellSlots w 0 xs))]
  | .extremum side xs => (w.form []).node (.extremum side) [("expressions", .array (spellSlots w 0 xs))]
  | .power a b => (w.form []).node .power [("base", spellSlot (w.below [0]) a), ("exponent", spellSlot (w.below [1]) b)]
  | .exponential a => (w.form []).node .exponential [("power", spellSlot (w.below [0]) a)]
  | .logarithmic a b =>
    (w.form []).node .logarithmic [("base", spellSlot (w.below [0]) a), ("power", spellSlot (w.below [1]) b)]
  | .clamp a b c =>
    (w.form []).node .clamp [("value", spellSlot (w.below [0]) a), ("min", spellSlot (w.below [1]) b),
      ("max", spellSlot (w.below [2]) c)]
  | .coreStat stat => (w.form []).node .coreStat [("stat", Document.toJson stat)]
  | .derivedStat stat => (w.form []).node .derivedStat [("stat", stat.spell (w.below [0]))]
  | .mastery => (w.form []).node .mastery []

def spellSlot (w : Spelling) : Option Expr → Json
  | none => .null
  | some e => spell w e

/-- Some operands in a spelling, the first of which stands at `index`. -/
def spellSlots (w : Spelling) : (index : Nat) → List (Option Expr) → List Json
  | _, [] => []
  | index, x :: xs => spellSlot (w.below [index]) x :: spellSlots w (index + 1) xs

end

end Expr

/-! ## Records in arrays and objects -/

namespace Record

theorem ofItems?_of_parts {names : List String} {parts : List (String × Json)} (h : parts.map (·.1) = names) :
    ofItems? names (parts.map (·.2)) = some ⟨true, parts⟩ := by
  have hlength : (parts.map (·.2)).length ≤ names.length := by
    rw [← h, List.length_map, List.length_map]
  rw [ofItems?, if_pos hlength, ← List.zip_of_prod h rfl]

end Record

namespace Form

theorem write_ne_null (parts : List (String × Json)) (f : Form) : f.write parts ≠ .null := by
  cases f <;> simp [write]

/-- A record is read from the object and from the array of its parts. -/
theorem ofJson?_write {names : List String} {parts : List (String × Json)} (h : parts.map (·.1) = names)
    (hnames : names.Nodup) {f : Form} (hf : f.IsWhole) :
    Record.ofJson? names (f.write parts) = some ⟨f.positional, parts⟩ := by
  cases f with
  | object => exact Record.ofMembers?_of_nodup h hnames
  | array => exact Record.ofItems?_of_parts h
  | longer item => exact absurd hf id
  | shorter => exact absurd hf id

/-- Beyond the last part of a record nothing may stand. -/
theorem ofItems?_longer {names : List String} {parts : List (String × Json)} (h : parts.map (·.1) = names)
    (item : Json) : Record.ofItems? names (parts.map (·.2) ++ [item]) = none := by
  rw [Record.ofItems?, if_neg]
  rw [← h, List.length_append, List.length_map, List.length_map, List.length_singleton]
  omega

end Form

/-! ## Derived stats -/

theorem mapM_mapIdx {α β : Type} {read : β → Option α} {xs : List α} {write : Nat → α → β}
    (h : ∀ index, ∀ x ∈ xs, read (write index x) = some x) : (xs.mapIdx write).mapM read = some xs := by
  induction xs generalizing write with
  | nil => rfl
  | cons x xs ih =>
    have hx := h 0 x List.mem_cons_self
    have hxs := ih fun index y hy => h (index + 1) y (List.mem_cons_of_mem x hy)
    rw [List.mapIdx_cons, List.mapM_cons, hx, hxs]
    rfl

theorem Modifier.read?_spell (place : Place) (m : Modifier) {f : Form} (hf : f.IsWhole) :
    Modifier.read? place (m.spell f) = some m := by
  have hr : Record.ofJson? ["stat", "weight", "op"] (m.spell f) =
      some ⟨f.positional, [("stat", Document.toJson m.stat), ("weight", Document.toJson m.weight),
        ("op", Document.toJson m.op)]⟩ :=
    Form.ofJson?_write (by rfl) (by decide) hf
  rw [Modifier.read?, hr]
  simp [Record.required, Record.get?, ofJson?_toJson_id, ofJson?_toJson_int32, Operator.read?_name]

/-- A derived stat is read as far as its modifiers are. -/
theorem DerivedStat.read?_spell_eq (place : Place) (d : DerivedStat) {w : Spelling} (hform : (w.form []).IsWhole) :
    DerivedStat.read? place (d.spell w) =
      ((d.modifiers.mapIdx fun index m => m.spell (w.form [index])).mapM (Modifier.read? place)).map
        fun modifiers => ⟨d.id, modifiers⟩ := by
  have hr : Record.ofJson? ["id", "modifiers"] (d.spell w) =
      some ⟨(w.form []).positional, [("id", Document.toJson d.id),
        ("modifiers", .array (d.modifiers.mapIdx fun index m => m.spell (w.form [index])))]⟩ :=
    Form.ofJson?_write (by rfl) (by decide) hform
  rw [DerivedStat.read?, hr]
  simp only [Option.bind_eq_bind, Option.bind_some, Record.required, Record.withDefault, Record.get?]
  simp [ofJson?_toJson_id, Json.toList?, Option.map_eq_bind]

theorem DerivedStat.read?_spell (place : Place) (d : DerivedStat) {w : Spelling} (hw : w.IsWhole) :
    DerivedStat.read? place (d.spell w) = some d := by
  have hmodifiers : (d.modifiers.mapIdx fun index m => m.spell (w.form [index])).mapM (Modifier.read? place) =
      some d.modifiers :=
    mapM_mapIdx fun index m _ => m.read?_spell place (hw [index])
  rw [d.read?_spell_eq place (hw []), hmodifiers]
  rfl

/-! ## Nodes -/

namespace Expr

theorem readAt_array (place : Place) (kind : Kind) (items : List Json) :
    readAt place (.array (.text kind.name :: items)) =
      (Record.ofItems? kind.parts items).bind fun r => ofRecord? (readAt .inner) r kind := by
  rw [readAt_eq, readNode, Kind.read?, Kind.ofName?_name]
  rfl

/-- A node is read from the object and from the array of its parts. -/
theorem readAt_node (place : Place) {kind : Kind} {parts : List (String × Json)}
    (h : parts.map (·.1) = kind.parts) {f : Form} (hf : f.IsWhole) :
    readAt place (f.node kind parts) = ofRecord? (readAt .inner) ⟨f.positional, parts⟩ kind := by
  cases f with
  | object =>
    rw [readAt_eq]
    exact readNode_nodeJson place _ h
  | array =>
    rw [Form.node, Form.write, List.map_cons, readAt_array, Record.ofItems?_of_parts h]
    rfl
  | longer item => exact absurd hf id
  | shorter => exact absurd hf id

theorem spell_ne_null (w : Spelling) (e : Expr) : spell w e ≠ .null := by
  cases e <;> rw [spell] <;> exact Form.write_ne_null _ _

mutual

/-- **A tree is read from each of its spellings.** -/
theorem readAt_spell (place : Place) : ∀ (e : Expr) (w : Spelling), w.IsWhole → w.IsExact e.constants →
    readAt place (spell w e) = some e
  | .constant x, w, hw, hx => by
    have hnumber := hx x (List.mem_singleton_self x) []
    rw [spell, readAt_node place rfl (hw [])]
    simp [ofRecord?, Record.required, Record.get?, hnumber]
  | .euler, w, hw, _ => by
    rw [spell, readAt_node place rfl (hw [])]
    rfl
  | .mastery, w, hw, _ => by
    rw [spell, readAt_node place rfl (hw [])]
    rfl
  | .coreStat stat, w, hw, _ => by
    rw [spell, readAt_node place rfl (hw [])]
    rfl
  | .derivedStat stat, w, hw, _ => by
    have hstat := stat.read?_spell .inner (hw.below [0])
    rw [spell, readAt_node place rfl (hw [])]
    simp [ofRecord?, Record.required, Record.get?, hstat]
  | .chain op xs, w, hw, hx => by
    rw [spell, readAt_node place rfl (hw []), ofRecord?_chain, readSlots_spellSlots xs w 0 hw hx]
    rfl
  | .extremum side xs, w, hw, hx => by
    rw [spell, readAt_node place rfl (hw []), ofRecord?_extremum, readSlots_spellSlots xs w 0 hw hx]
    rfl
  | .exponential a, w, hw, hx => by
    have ha := readSlot_spellSlot a (w.below [0]) (hw.below _) (hx.below _)
    rw [spell, readAt_node place rfl (hw []), ofRecord?_exponential, ha]
    rfl
  | .power a b, w, hw, hx => by
    obtain ⟨hxa, hxb⟩ := Spelling.isExact_append.1 hx
    have ha := readSlot_spellSlot a (w.below [0]) (hw.below _) (hxa.below _)
    have hb := readSlot_spellSlot b (w.below [1]) (hw.below _) (hxb.below _)
    rw [spell, readAt_node place rfl (hw []), ofRecord?_power, ha, hb]
    rfl
  | .logarithmic a b, w, hw, hx => by
    obtain ⟨hxa, hxb⟩ := Spelling.isExact_append.1 hx
    have ha := readSlot_spellSlot a (w.below [0]) (hw.below _) (hxa.below _)
    have hb := readSlot_spellSlot b (w.below [1]) (hw.below _) (hxb.below _)
    rw [spell, readAt_node place rfl (hw []), ofRecord?_logarithmic, ha, hb]
    rfl
  | .clamp a b c, w, hw, hx => by
    obtain ⟨hxa, hx⟩ := Spelling.isExact_append.1 hx
    obtain ⟨hxb, hxc⟩ := Spelling.isExact_append.1 hx
    have ha := readSlot_spellSlot a (w.below [0]) (hw.below _) (hxa.below _)
    have hb := readSlot_spellSlot b (w.below [1]) (hw.below _) (hxb.below _)
    have hc := readSlot_spellSlot c (w.below [2]) (hw.below _) (hxc.below _)
    rw [spell, readAt_node place rfl (hw []), ofRecord?_clamp, ha, hb, hc]
    rfl

theorem readSlot_spellSlot : ∀ (x : Option Expr) (w : Spelling), w.IsWhole → w.IsExact (slotConstants x) →
    Json.toOption? (readAt .inner) (spellSlot w x) = some x
  | none, _, _, _ => rfl
  | some e, w, hw, hx => by
    rw [spellSlot, Json.toOption?_of_ne_null (spell_ne_null w e), readAt_spell .inner e w hw hx]
    rfl

theorem readSlots_spellSlots : ∀ (xs : List (Option Expr)) (w : Spelling) (index : Nat), w.IsWhole →
    w.IsExact (slotsConstants xs) → (spellSlots w index xs).mapM (Json.toOption? (readAt .inner)) = some xs
  | [], _, _, _, _ => rfl
  | x :: xs, w, index, hw, hx => by
    obtain ⟨hhead, hrest⟩ := Spelling.isExact_append.1 hx
    have hx := readSlot_spellSlot x (w.below [index]) (hw.below _) (hhead.below _)
    have hxs := readSlots_spellSlots xs w (index + 1) hw hrest
    rw [spellSlots, List.mapM_cons, hx, hxs]
    rfl

end

end Expr

/-! ## Properties that a value has from its parts -/

/-- A property that arrays and objects have if what is in them has it, and that texts and small numbers have. -/
structure Json.Hereditary (P : Json → Prop) : Prop where
  null : P .null
  text (s : String) : P (.text s)
  whole (n : Int32) : P (.whole n.toInt)
  array {items : List Json} : (∀ j ∈ items, P j) → P (.array items)
  object {members : List (String × Json)} : (∀ m ∈ members, P m.2) → P (.object members)

theorem Json.hereditary_readable : Json.Hereditary fun j => j.readable = true where
  null := rfl
  text _ := rfl
  whole _ := rfl
  array h := by
    rw [readable, readableItems_eq_all]
    exact List.all_eq_true.2 h
  object h := by
    rw [readable, readableMembers_eq_all]
    exact List.all_eq_true.2 h

theorem Json.hereditary_restorable : Json.Hereditary Restorable where
  null := by simp [Restorable]
  text _ := by simp [Restorable]
  whole n := by simpa [Restorable] using Json.fits_int32 n
  array h := by
    rw [Restorable]
    exact restorableItems_iff.2 h
  object h := by
    rw [Restorable]
    exact restorableMembers_iff.2 h

section
variable {P : Json → Prop} (hP : Json.Hereditary P)
include hP

theorem Form.holds_write {parts : List (String × Json)} {f : Form} (hf : f.IsWhole) (h : ∀ m ∈ parts, P m.2) :
    P (f.write parts) := by
  cases f with
  | object => exact hP.object h
  | array => exact hP.array (List.forall_mem_map.2 h)
  | longer item => exact absurd hf id
  | shorter => exact absurd hf id

theorem Form.holds_node {kind : Kind} {parts : List (String × Json)} {f : Form} (hf : f.IsWhole)
    (h : ∀ m ∈ parts, P m.2) : P (f.node kind parts) :=
  Form.holds_write hP hf (List.forall_mem_cons.2 ⟨hP.text _, h⟩)

theorem Modifier.holds_spell (m : Modifier) {f : Form} (hf : f.IsWhole) : P (m.spell f) :=
  Form.holds_write hP hf (by simp [Document.toJson, hP.text, hP.whole])

theorem DerivedStat.holds_spell (d : DerivedStat) {w : Spelling} (hw : w.IsWhole) : P (d.spell w) := by
  have hmodifiers : ∀ j ∈ d.modifiers.mapIdx fun index m => m.spell (w.form [index]), P j := by
    intro j hj
    obtain ⟨index, h, rfl⟩ := List.mem_mapIdx.1 hj
    exact Modifier.holds_spell hP _ (hw [index])
  exact Form.holds_write hP (hw []) (by simp [Document.toJson, hP.text, hP.array hmodifiers])

end

namespace Expr

section
variable {P : Json → Prop}

mutual

/-- What all numbers of a spelling have and what is inherited, the spelled tree has. -/
theorem holds_spell (hP : Json.Hereditary P) : ∀ (e : Expr) (w : Spelling), w.IsWhole →
    (∀ x ∈ e.constants, ∀ a, P (w.number a x)) → P (spell w e)
  | .constant x, w, hw, hx => by
    have hnumber := hx x (List.mem_singleton_self x) []
    exact Form.holds_node hP (hw []) (by simpa using hnumber)
  | .euler, w, hw, _ => Form.holds_node hP (hw []) (by simp)
  | .mastery, w, hw, _ => Form.holds_node hP (hw []) (by simp)
  | .coreStat stat, w, hw, _ => Form.holds_node hP (hw []) (by simp [Document.toJson, hP.text])
  | .derivedStat stat, w, hw, _ => by
    have hstat := DerivedStat.holds_spell hP stat (hw.below [0])
    exact Form.holds_node hP (hw []) (by simpa using hstat)
  | .chain op xs, w, hw, hx => by
    have hxs := hP.array (holds_spellSlots hP xs w 0 hw hx)
    exact Form.holds_node hP (hw []) (by simpa using hxs)
  | .extremum side xs, w, hw, hx => by
    have hxs := hP.array (holds_spellSlots hP xs w 0 hw hx)
    exact Form.holds_node hP (hw []) (by simpa using hxs)
  | .exponential a, w, hw, hx => by
    have ha := holds_spellSlot hP a (w.below [0]) (hw.below _) fun x h b => hx x h _
    exact Form.holds_node hP (hw []) (by simpa using ha)
  | .power a b, w, hw, hx => by
    obtain ⟨hxa, hxb⟩ := List.forall_mem_append.1 hx
    have ha := holds_spellSlot hP a (w.below [0]) (hw.below _) fun x h b => hxa x h _
    have hb := holds_spellSlot hP b (w.below [1]) (hw.below _) fun x h b => hxb x h _
    exact Form.holds_node hP (hw []) (by simpa using ⟨ha, hb⟩)
  | .logarithmic a b, w, hw, hx => by
    obtain ⟨hxa, hxb⟩ := List.forall_mem_append.1 hx
    have ha := holds_spellSlot hP a (w.below [0]) (hw.below _) fun x h b => hxa x h _
    have hb := holds_spellSlot hP b (w.below [1]) (hw.below _) fun x h b => hxb x h _
    exact Form.holds_node hP (hw []) (by simpa using ⟨ha, hb⟩)
  | .clamp a b c, w, hw, hx => by
    obtain ⟨hxa, hx⟩ := List.forall_mem_append.1 hx
    obtain ⟨hxb, hxc⟩ := List.forall_mem_append.1 hx
    have ha := holds_spellSlot hP a (w.below [0]) (hw.below _) fun x h b => hxa x h _
    have hb := holds_spellSlot hP b (w.below [1]) (hw.below _) fun x h b => hxb x h _
    have hc := holds_spellSlot hP c (w.below [2]) (hw.below _) fun x h b => hxc x h _
    exact Form.holds_node hP (hw []) (by simpa using ⟨ha, hb, hc⟩)

theorem holds_spellSlot (hP : Json.Hereditary P) : ∀ (x : Option Expr) (w : Spelling), w.IsWhole →
    (∀ c ∈ slotConstants x, ∀ a, P (w.number a c)) → P (spellSlot w x)
  | none, _, _, _ => hP.null
  | some e, w, hw, hx => holds_spell hP e w hw hx

theorem holds_spellSlots (hP : Json.Hereditary P) : ∀ (xs : List (Option Expr)) (w : Spelling) (index : Nat),
    w.IsWhole → (∀ c ∈ slotsConstants xs, ∀ a, P (w.number a c)) → ∀ j ∈ spellSlots w index xs, P j
  | [], _, _, _, _ => by simp [spellSlots]
  | x :: xs, w, index, hw, hx => by
    obtain ⟨hhead, hrest⟩ := List.forall_mem_append.1 hx
    refine List.forall_mem_cons.2 ⟨?_, holds_spellSlots hP xs w (index + 1) hw hrest⟩
    exact holds_spellSlot hP x (w.below [index]) (hw.below _) fun c h a => hhead c h _

end

end

end Expr

end Formulary
