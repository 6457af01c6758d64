import Formulary.Proofs.Document.Flaws
import Formulary.Proofs.Json.Skipping
import Formulary.Library

/-!
# Documents that are refused

One flaw in an expression that a document lists, at whatever depth, and nothing is loaded: `parse_of_flawed`. That holds
as well for flaws so deep that no reader gets there, since what is skipped is unreadable (`read?_cut_eq_none`).
-/

namespace Formulary

open Json (nesting)

namespace Record

/-- Whether a value spells a record of some parts and gives another value for one of them. -/
inductive Gives (names : List String) (name : String) : Json → Json → Prop where
  | member {members : List (String × Json)} {j : Json} : (name, j) ∈ members → Gives names name (.object members) j
  | position {items : List Json} {j : Json} : (name, j) ∈ names.zip items → Gives names name (.array items) j

variable {names : List String} {name : String} {j k : Json}

theorem Gives.cut (h : Gives names name j k) (depth : Nat) :
    Gives names name (Json.cut (depth + 1) j) (Json.cut depth k) := by
  cases h with
  | member hmem =>
    rw [Json.cut, Json.cutMembers_eq_map]
    exact .member (List.mem_map.2 ⟨_, hmem, rfl⟩)
  | position hmem =>
    rw [Json.cut, Json.cutItems_eq_map]
    refine .position ?_
    rw [List.zip_map_right]
    exact List.mem_map.2 ⟨_, hmem, rfl⟩

/-- What is given for a part is found there once the record is read. -/
theorem Gives.get?_eq {r : Record} (h : Gives names name j k) (hnames : names.Nodup) (hname : name ∈ names)
    (hr : ofJson? names j = some r) : r.get? name = some k := by
  cases h with
  | @member members _ hmem =>
    rw [ofJson?, ofMembers?_eq_given] at hr
    split at hr
    · next hle =>
      obtain rfl := Option.some.inj hr
      have hgiven : k ∈ Json.given members name := List.mem_map.2 ⟨_, List.mem_filter.2 ⟨hmem, by simp⟩, rfl⟩
      rw [get?_eq_given]
      match hvs : Json.given members name, hle name hname with
      | [], _ => exact absurd hgiven (by simp [hvs])
      | [_], _ =>
        rw [hvs, List.mem_singleton] at hgiven
        rw [hgiven]
        rfl
    · exact absurd hr (by simp)
  | @position items _ hmem =>
    rw [ofJson?, ofItems?] at hr
    split at hr
    · obtain rfl := Option.some.inj hr
      obtain ⟨i, hi⟩ := List.mem_iff_getElem?.1 hmem
      obtain ⟨hiname, hitem⟩ := List.getElem?_zip_eq_some.1 hi
      rw [get?_zip true hnames hiname, hitem]
    · exact absurd hr (by simp)

end Record

namespace Library

/-- Whether the document of a library lists a value as a formula. -/
def ListsFormula (j f : Json) : Prop :=
  ∃ formulas, Record.Gives ["formulas"] "formulas" j (.array formulas) ∧ f ∈ formulas

/-- Whether the document of a library lists a value as an expression of one of its formulas. -/
def ListsExpression (j k : Json) : Prop :=
  ∃ f expressions, ListsFormula j f ∧ Record.Gives ["name", "expressions"] "expressions" f (.array expressions) ∧
    k ∈ expressions

/-- Whether something is wrong with the expressions of a document: one of them has a flaw, at whatever depth, or
something else than a list of them is given for a formula. -/
inductive Flawed (j : Json) : Prop where
  | expression {k v : Json} {sense : Sense} : ListsExpression j k → (Sense.node .outer).Within k sense v →
    Flaw sense v → Flawed j
  | expressions {f v : Json} : ListsFormula j f → Record.Gives ["name", "expressions"] "expressions" f v →
    (∀ items, v ≠ .array items) → Flawed j

/-! ## What has to be read -/

section
variable {j f k v : Json}

/-- Two levels of brackets stand around the formulas of a library. -/
theorem ListsFormula.cut (h : ListsFormula j f) (depth : Nat) :
    ListsFormula (Json.cut (depth + 2) j) (Json.cut depth f) := by
  obtain ⟨formulas, hformulas, hf⟩ := h
  refine ⟨Json.cutItems depth formulas, hformulas.cut (depth + 1), ?_⟩
  rw [Json.cutItems_eq_map]
  exact List.mem_map_of_mem hf

/-- Four levels of brackets stand around the expressions of a library. -/
theorem ListsExpression.cut (h : ListsExpression j k) (depth : Nat) :
    ListsExpression (Json.cut (depth + 4) j) (Json.cut depth k) := by
  obtain ⟨f, expressions, hf, hexpressions, hk⟩ := h
  refine ⟨_, Json.cutItems depth expressions, hf.cut (depth + 2), hexpressions.cut (depth + 1), ?_⟩
  rw [Json.cutItems_eq_map]
  exact List.mem_map_of_mem hk

variable {read : List Formula} (hread : readFormulas? j = some read)
include hread

theorem read?_of_listsFormula (h : ListsFormula j f) : ∃ formula, Formula.read? f = some formula := by
  obtain ⟨formulas, hformulas, hf⟩ := h
  simp only [readFormulas?, Option.bind_eq_bind, Option.bind_eq_some_iff] at hread
  obtain ⟨r, hr, hread⟩ := hread
  rw [Record.withDefault, hformulas.get?_eq (by simp) (by simp) hr] at hread
  obtain ⟨formula, -, hformula⟩ := Json.mem_of_mapM_some_left hread f hf
  exact ⟨formula, hformula⟩

theorem toList?_of_gives (hf : ListsFormula j f) (h : Record.Gives ["name", "expressions"] "expressions" f v) :
    ∃ es, Json.toList? Expr.read? v = some es := by
  obtain ⟨formula, hformula⟩ := read?_of_listsFormula hread hf
  simp only [Formula.read?, Option.bind_eq_bind, Option.bind_eq_some_iff] at hformula
  obtain ⟨r, hr, name, -, es, hes, -⟩ := hformula
  rw [Record.withDefault, h.get?_eq (by simp) (by simp) hr] at hes
  exact ⟨es, hes⟩

/-- **All expressions of a document have to be read**, or no formulas are. -/
theorem read?_of_listsExpression (h : ListsExpression j k) : ∃ e, Expr.read? k = some e := by
  obtain ⟨f, expressions, hf, hexpressions, hk⟩ := h
  obtain ⟨es, hes⟩ := toList?_of_gives hread hf hexpressions
  obtain ⟨e, -, he⟩ := Json.mem_of_mapM_some_left hes k hk
  exact ⟨e, he⟩

end

/-! ## Refusal -/

/-- An expression that is too deep is not read, and if it is not too deep its flaw is not either. -/
theorem read?_cut_eq_none {k v : Json} {sense : Sense} (hv : (Sense.node .outer).Within k sense v)
    (hflaw : Flaw sense v) (depth : Nat) : Expr.read? (Json.cut depth k) = none := by
  rw [Option.eq_none_iff_forall_ne_some]
  intro e he
  obtain ⟨hreadable, he⟩ := Expr.read?_eq_some_iff.1 he
  have hnesting : nesting k ≤ depth := by
    by_contra hdeep
    rw [Json.readable_cut k (by omega)] at hreadable
    exact absurd hreadable (by simp)
  have hnone : Expr.readAt .outer k = none := hv.read?_eq_none_of_flaw hflaw
  rw [Json.cut_of_nesting_le k hnesting, hnone] at he
  exact absurd he (by simp)

theorem toList?_cut_eq_none {α : Type} {v : Json} (h : ∀ items, v ≠ .array items) (depth : Nat)
    (read : Json → Option α) : Json.toList? read (Json.cut depth v) = none := by
  cases v with
  | array items => exact absurd rfl (h items)
  | object members => cases depth <;> simp [Json.cut, Json.toList?]
  | _ => simp [Json.cut, Json.toList?]

theorem readFormulas?_cut_of_flawed {j : Json} (h : Flawed j) (depth : Nat) :
    readFormulas? (Json.cut (depth + 4) j) = none := by
  rw [Option.eq_none_iff_forall_ne_some]
  intro formulas hread
  cases h with
  | expression hk hv hflaw =>
    obtain ⟨e, he⟩ := read?_of_listsExpression hread (hk.cut depth)
    rw [read?_cut_eq_none hv hflaw] at he
    exact absurd he (by simp)
  | expressions hf hv hlist =>
    obtain ⟨es, hes⟩ := toList?_of_gives hread (hf.cut (depth + 2)) (hv.cut (depth + 1))
    rw [toList?_cut_eq_none hlist] at hes
    exact absurd hes (by simp)

/-- **One flaw and nothing is loaded.** If there is a flaw in one expression of one formula that the document of a
library lists, at whatever depth, the document is malformed: no library is loaded that lacks what has the flaw, and no
name is ever compared. -/
theorem parse_of_flawed {s : String} {j : Json} (hs : Json.value? s = some j) (h : Flawed j) :
    parse s = .error .malformed := by
  have hnone : (Json.parse? s).bind readFormulas? = none := by
    cases hparse : Json.parse? s with
    | none => rfl
    | some j' =>
      obtain rfl := Json.parse?_eq_cut hs hparse
      exact readFormulas?_cut_of_flawed h 123
  rw [parse, hnone]

def numberless : Json :=
  .object [("value", .null), ("kind", .text "constant")]

/-- The larger of nothing and of a power, the exponent of which is that literal. -/
def flawed : Json :=
  .object [("kind", .text "max"), ("expressions", .array [.null, .array [.text "exponential", numberless]])]

/-- A document that lists two formulas of one name. -/
def flawedDocument : Json :=
  .object [("formulas", .array [.object [("name", .text "f")],
    .object [("name", .text "f"), ("expressions", .array [.object [("kind", .text "mastery")], flawed])]])]

theorem parse_of_flawed_numberless : parse (flawedDocument.render .indented) = .error .malformed := by
  have hrestorable : flawedDocument.Restorable := by
    simp [flawedDocument, flawed, numberless, Json.Restorable, Json.RestorableItems, Json.RestorableMembers]
  have hformula : ListsFormula flawedDocument _ :=
    ⟨_, .member List.mem_cons_self, List.mem_cons_of_mem _ List.mem_cons_self⟩
  have hlists : ListsExpression flawedDocument flawed :=
    ⟨_, _, hformula, .member (List.mem_cons_of_mem _ List.mem_cons_self), List.mem_cons_of_mem _ List.mem_cons_self⟩
  have hvalue : Sense.slot.HasPart numberless .number .null :=
    .member (show ("value", Sense.number) ∈ _ by decide) List.mem_cons_self
  have hpower : Sense.slot.HasPart (.array [.text "exponential", numberless]) .slot numberless :=
    .position (show _[1]? = some ("power", Sense.slot) by decide) rfl
  have hitem : Sense.slots.HasPart (.array [.null, .array [.text "exponential", numberless]]) .slot _ :=
    .item rfl (List.mem_cons_of_mem _ List.mem_cons_self)
  have hmax : (Sense.node .outer).HasPart flawed .slots _ :=
    .member (show ("expressions", Sense.slots) ∈ _ by decide) (List.mem_cons_of_mem _ List.mem_cons_self)
  have hwithin : (Sense.node .outer).Within flawed .number .null :=
    .part hmax (.part hitem (.part hpower (.part hvalue .self)))
  exact parse_of_flawed (Json.value?_render .indented hrestorable)
    (.expression hlists hwithin (.number (by simp) (by simp)))

end Library

end Formulary
