import Formulary.Context.Extras
import Formulary.Proofs.Document.Basic
import Formulary.Proofs.Json.Levels
import Formulary.Proofs.Json.Order

/-!
# The extra values of a context

What is read under a key is told from the last value of that key that has a document form
(`extras_get?_keepAll_of_last`), and what type it can be read as depends on that form only: `extras_of_history`.
-/

namespace Formulary

/-! ## Types of whole numbers -/

inductive WholeType where
  | int32
  | int64
  | uint8
  | uint64
deriving DecidableEq, Repr

namespace WholeType

def Value : WholeType → Type
  | .int32 => Int32
  | .int64 => Int64
  | .uint8 => UInt8
  | .uint64 => UInt64

instance : (type : WholeType) → Document type.Value
  | .int32 => inferInstanceAs (Document Int32)
  | .int64 => inferInstanceAs (Document Int64)
  | .uint8 => inferInstanceAs (Document UInt8)
  | .uint64 => inferInstanceAs (Document UInt64)

def toInt : (type : WholeType) → type.Value → Int
  | .int32, n => Int32.toInt n
  | .int64, n => Int64.toInt n
  | .uint8, n => UInt8.toNat n
  | .uint64, n => UInt64.toNat n

/-- Whether a whole number is in the range of a type. -/
def Contains : WholeType → Int → Prop
  | .int32, n => -0x80000000 ≤ n ∧ n ≤ 0x7FFFFFFF
  | .int64, n => -0x8000000000000000 ≤ n ∧ n ≤ 0x7FFFFFFFFFFFFFFF
  | .uint8, n => 0 ≤ n ∧ n ≤ 0xFF
  | .uint64, n => 0 ≤ n ∧ n ≤ 0xFFFFFFFFFFFFFFFF

/-- A value of any of the types is written as the whole number that it is. -/
theorem toJson_eq (type : WholeType) (x : type.Value) : Document.toJson x = .whole (type.toInt x) := by
  cases type <;> rfl

theorem toInt_ofInt_int32 (n : Int) : (Int32.ofInt n).toInt = n ↔ WholeType.int32.Contains n := by
  constructor
  · intro h
    have hlow := (Int32.ofInt n).le_toInt
    have hhigh := (Int32.ofInt n).toInt_lt
    rw [h] at hlow hhigh
    exact ⟨by omega, by omega⟩
  · rintro ⟨hlow, hhigh⟩
    exact Int32.toInt_ofInt_of_le hlow (by omega)

theorem toInt_ofInt_int64 (n : Int) : (Int64.ofInt n).toInt = n ↔ WholeType.int64.Contains n := by
  constructor
  · intro h
    have hlow := (Int64.ofInt n).le_toInt
    have hhigh := (Int64.ofInt n).toInt_lt
    rw [h] at hlow hhigh
    exact ⟨by omega, by omega⟩
  · rintro ⟨hlow, hhigh⟩
    exact Int64.toInt_ofInt_of_le hlow (by omega)

theorem toNat_ofNat_uint8 (n : Int) : ((UInt8.ofNat n.toNat).toNat : Int) = n ↔ WholeType.uint8.Contains n := by
  rw [UInt8.toNat_ofNat', Contains]
  omega

theorem toNat_ofNat_uint64 (n : Int) : ((UInt64.ofNat n.toNat).toNat : Int) = n ↔ WholeType.uint64.Contains n := by
  rw [UInt64.toNat_ofNat', Contains]
  omega

/-- What is read from a whole number, given which numbers there are of a type. -/
theorem toRange?_whole {α : Type} (ofInt : Int → α) (toInt : α → Int) {n : Int} {p : Prop}
    (h : toInt (ofInt n) = n ↔ p) :
    (p → ∃ x, Json.toRange? ofInt toInt (.whole n) = some x ∧ toInt x = n) ∧
      (¬ p → Json.toRange? ofInt toInt (.whole n) = none) := by
  rw [← h]
  constructor
  · intro heq
    exact ⟨ofInt n, if_pos heq, heq⟩
  · intro hne
    exact if_neg hne

/-- **A whole number is read as each type that has it in its range**, and as no other. -/
theorem ofJson?_whole (type : WholeType) (n : Int) :
    (type.Contains n → ∃ x : type.Value, Document.ofJson? (.whole n) = some x ∧ type.toInt x = n) ∧
      (¬ type.Contains n → (Document.ofJson? (.whole n) : Option type.Value) = none) := by
  cases type with
  | int32 => exact toRange?_whole Int32.ofInt Int32.toInt (toInt_ofInt_int32 n)
  | int64 => exact toRange?_whole Int64.ofInt Int64.toInt (toInt_ofInt_int64 n)
  | uint8 => exact toRange?_whole (fun n => UInt8.ofNat n.toNat) (fun x => x.toNat) (toNat_ofNat_uint8 n)
  | uint64 => exact toRange?_whole (fun n => UInt64.ofNat n.toNat) (fun x => x.toNat) (toNat_ofNat_uint64 n)

theorem ofJson?_null (type : WholeType) : (Document.ofJson? .null : Option type.Value) = none := by
  cases type <;> rfl

theorem ofJson?_real (type : WholeType) (x : Float) : (Document.ofJson? (.real x) : Option type.Value) = none := by
  cases type <;> rfl

/-- A list of whole numbers is read as one of small numbers if all of them are small. -/
theorem ofJson?_wholes (ns : List Int) :
    ((∀ n ∈ ns, WholeType.int32.Contains n) →
      ∃ xs : List Int32, Document.ofJson? (.array (ns.map .whole)) = some xs ∧ xs.map Int32.toInt = ns) ∧
    (¬ (∀ n ∈ ns, WholeType.int32.Contains n) →
      (Document.ofJson? (.array (ns.map .whole)) : Option (List Int32)) = none) := by
  show (_ → ∃ xs, (ns.map Json.whole).mapM (Document.ofJson? : Json → Option Int32) = some xs ∧ _) ∧
    (_ → (ns.map Json.whole).mapM (Document.ofJson? : Json → Option Int32) = none)
  constructor
  · intro h
    induction ns with
    | nil => exact ⟨[], rfl, rfl⟩
    | cons n ns ih =>
      obtain ⟨hn, hns⟩ := List.forall_mem_cons.1 h
      have hread : ∃ x : Int32, Document.ofJson? (.whole n) = some x ∧ x.toInt = n := (ofJson?_whole .int32 n).1 hn
      obtain ⟨x, hx, hxn⟩ := hread
      obtain ⟨xs, hxs, hxns⟩ := ih hns
      refine ⟨x :: xs, ?_, by rw [List.map_cons, hxn, hxns]⟩
      rw [List.map_cons, List.mapM_cons, hx, hxs]
      rfl
  · intro h
    rw [Option.eq_none_iff_forall_ne_some]
    intro xs hxs
    apply h
    intro n hn
    obtain ⟨x, -, hx⟩ := Json.mem_of_mapM_some_left hxs (.whole n) (List.mem_map_of_mem hn)
    by_contra hout
    have hnone := (ofJson?_whole .int32 n).2 hout
    exact absurd (hx.symm.trans hnone) (by simp)

end WholeType

namespace Context

/-! ## Keeping values -/

/-- The context after some values were kept in order, each under its key. A value without a document form stands as
`none`. -/
def keepAll (ctx : Context) (sets : List (String × Option Json)) : Context :=
  sets.foldl (fun ctx s => ctx.keep s.1 s.2) ctx

/-- Keeping a value changes what is under its own key, if it has a document form. -/
theorem extras_get?_keep (ctx : Context) (key : String) (value : Option Json) (q : String) :
    (ctx.keep key value).extras.get? q =
      if q = key then (value.map Json.canonical).or (ctx.extras.get? q) else ctx.extras.get? q := by
  cases value with
  | none => simp [keep]
  | some j => simp [keep, Table.get?_insert]

variable {ctx : Context} {sets : List (String × Option Json)} {key : String}

theorem eq_none_of_forall_not_mem (h : ∀ j, (key, some j) ∉ sets) : ∀ s ∈ sets, s.1 = key → s.2 = none := by
  rintro ⟨_, value⟩ hs rfl
  cases value with
  | none => rfl
  | some j => exact absurd hs (h j)

/-- Where no value of a key has a form, what was under the key stays there. -/
theorem extras_get?_keepAll_of_failed (h : ∀ s ∈ sets, s.1 = key → s.2 = none) :
    (ctx.keepAll sets).extras.get? key = ctx.extras.get? key := by
  induction sets generalizing ctx with
  | nil => rfl
  | cons s sets ih =>
    obtain ⟨hs, hsets⟩ := List.forall_mem_cons.1 h
    refine (ih hsets).trans ?_
    rw [extras_get?_keep]
    split
    · next hkey => rw [hs hkey.symm, Option.map_none, Option.none_or]
    · rfl

/-- **Under a key is the last of its values that has a form.** -/
theorem extras_get?_keepAll_of_last {before later : List (String × Option Json)} {j : Json}
    (h : ∀ s ∈ later, s.1 = key → s.2 = none) :
    (ctx.keepAll (before ++ (key, some j) :: later)).extras.get? key = some j.canonical := by
  rw [keepAll, List.foldl_append, List.foldl_cons]
  refine (extras_get?_keepAll_of_failed h).trans ?_
  rw [extras_get?_keep, if_pos rfl]
  rfl

theorem contains_keep (ctx : Context) (key : String) (value : Option Json) (q : String) :
    (ctx.keep key value).contains q = true ↔ ctx.contains q = true ∨ q = key ∧ value ≠ none := by
  rw [contains, Table.contains, extras_get?_keep, contains, Table.contains]
  by_cases hq : q = key <;> cases value <;> simp [hq]

/-- **A key is held exactly if one of its values has a form**, or if it was held before. -/
theorem contains_keepAll :
    (ctx.keepAll sets).contains key = true ↔ ctx.contains key = true ∨ ∃ j, (key, some j) ∈ sets := by
  induction sets generalizing ctx with
  | nil => simp [keepAll]
  | cons s sets ih =>
    have hhead : (key = s.1 ∧ s.2 ≠ none) ↔ ∃ j, (key, some j) = s := by
      simp [Prod.ext_iff, Option.ne_none_iff_exists]
    refine ih.trans ?_
    simp only [contains_keep, hhead, or_assoc, List.mem_cons, exists_or]

/-! ## Reading values -/

/-- Whether a whole number is read under a key as each type that has it in its range, and as no other of them. -/
def ReadsWhole (ctx : Context) (key : String) (n : Int) : Prop :=
  ∀ type : WholeType,
    (type.Contains n → ∃ x : type.Value, ctx.get? type.Value key = some x ∧ type.toInt x = n) ∧
      (¬ type.Contains n → ctx.get? type.Value key = none)

/-- Whether a double is read under a key, and no whole number. -/
def ReadsDouble (ctx : Context) (key : String) (x : Float) : Prop :=
  ctx.get? Float key = some x ∧ ∀ type : WholeType, ctx.get? type.Value key = none

/-- Whether some whole numbers are read under a key as a list of small ones, if all of them are small. -/
def ReadsWholes (ctx : Context) (key : String) (ns : List Int) : Prop :=
  ((∀ n ∈ ns, WholeType.int32.Contains n) →
    ∃ xs : List Int32, ctx.get? (List Int32) key = some xs ∧ xs.map Int32.toInt = ns) ∧
  (¬ (∀ n ∈ ns, WholeType.int32.Contains n) → ctx.get? (List Int32) key = none)

/-- Whether an absent value is read under a key where it may be absent, and nothing where it may not. -/
def ReadsNull (ctx : Context) (key : String) : Prop :=
  ctx.get? (Option Int32) key = some none ∧ (∀ type : WholeType, ctx.get? type.Value key = none) ∧
    ctx.get? Float key = none ∧ ctx.get? (List Int32) key = none

section
variable {ctx : Context} {key : String}

theorem get?_of_extras {α : Type} [Document α] {j : Json} (h : ctx.extras.get? key = some j) :
    ctx.get? α key = Document.ofJson? j := by
  rw [get?, h, Option.bind_some]

theorem readsWhole_of_extras {n : Int} (h : ctx.extras.get? key = some (.whole n)) : ctx.ReadsWhole key n := by
  intro type
  rw [get?_of_extras h]
  exact type.ofJson?_whole n

theorem readsDouble_of_extras {x : Float} (h : ctx.extras.get? key = some (.real x)) : ctx.ReadsDouble key x := by
  refine ⟨get?_of_extras h, fun type => ?_⟩
  rw [get?_of_extras h]
  exact type.ofJson?_real x

theorem readsWholes_of_extras {ns : List Int} (h : ctx.extras.get? key = some (.array (ns.map .whole))) :
    ctx.ReadsWholes key ns := by
  rw [ReadsWholes, get?_of_extras h]
  exact WholeType.ofJson?_wholes ns

theorem readsNull_of_extras (h : ctx.extras.get? key = some .null) : ctx.ReadsNull key := by
  refine ⟨get?_of_extras h, fun type => ?_, get?_of_extras h, get?_of_extras h⟩
  rw [get?_of_extras h]
  exact type.ofJson?_null

end

/-- **What a context keeps is told by its history.** After any values were kept in order, some of which have no document
form: a key is held exactly if one of its values has a form, or if it was held before. If none has, the key is read as
before. Otherwise it is read as if the last value of the key that has a form were the only one that was ever kept. A
whole number is then read as exactly those types that have it in their range; a double as a double if it is finite and
never as a whole number; a list of whole numbers as one of small ones exactly if all of them are small; and `null`,
which also stands for a double that is not finite, only as an absent value. -/
theorem extras_of_history (ctx : Context) (sets : List (String × Option Json)) (key : String) :
    let after := ctx.keepAll sets
    (after.contains key = true ↔ ctx.contains key = true ∨ ∃ j, (key, some j) ∈ sets) ∧
    ((∀ j, (key, some j) ∉ sets) → ∀ (α : Type) [Document α], after.get? α key = ctx.get? α key) ∧
    ∀ before j later, sets = before ++ (key, some j) :: later → (∀ s ∈ later, s.1 = key → s.2 = none) →
      (∀ (α : Type) [Document α], after.get? α key = (empty.keep key (some j)).get? α key) ∧
      (∀ n, j = .whole n → after.ReadsWhole key n) ∧
      (∀ (type : WholeType) (x : type.Value), j = Document.toJson x → after.ReadsWhole key (type.toInt x)) ∧
      (∀ x : Float, j = Document.toJson x → if x.isFinite then after.ReadsDouble key x else after.ReadsNull key) ∧
      (∀ ns : List Int, j = .array (ns.map .whole) → after.ReadsWholes key ns) ∧
      (∀ (type : WholeType) (xs : List type.Value), j = Document.toJson xs →
        after.ReadsWholes key (xs.map type.toInt)) ∧
      (j = .null → after.ReadsNull key) := by
  intro after
  refine ⟨contains_keepAll, fun hnone α _ => ?_, ?_⟩
  · rw [get?, get?, extras_get?_keepAll_of_failed (eq_none_of_forall_not_mem hnone)]
  · rintro before j later rfl hlater
    -- all that is read follows from what is under the key
    have hkept : after.extras.get? key = some j.canonical := extras_get?_keepAll_of_last hlater
    have hwhole (n : Int) (hj : j = .whole n) : after.ReadsWhole key n := by
      subst hj
      exact readsWhole_of_extras hkept
    have hwholes (ns : List Int) (hj : j = .array (ns.map .whole)) : after.ReadsWholes key ns := by
      rw [hj, Json.canonical_array, List.map_map] at hkept
      exact readsWholes_of_extras hkept
    have hnull (hj : j = .null) : after.ReadsNull key := by
      subst hj
      exact readsNull_of_extras hkept
    refine ⟨fun α _ => ?_, hwhole, ?_, ?_, hwholes, ?_, hnull⟩
    · have halone : (empty.keep key (some j)).extras.get? key = some j.canonical := by
        rw [extras_get?_keep, if_pos rfl]
        rfl
      rw [get?_of_extras hkept, get?_of_extras halone]
    · intro type x hj
      exact hwhole _ (hj.trans (type.toJson_eq x))
    · intro x hj
      replace hj : j = .ofFloat x := hj
      split
      · next hx =>
        rw [hj, Json.ofFloat, if_pos hx] at hkept
        exact readsDouble_of_extras hkept
      · next hx => exact hnull (hj.trans (if_neg hx))
    · intro type xs hj
      apply hwholes
      rw [hj, List.map_map]
      exact congrArg Json.array (List.map_congr_left fun x _ => type.toJson_eq x)

/-- Values kept under three keys, the last one of the first key without a document form. -/
def battle : List (String × Option Json) :=
  [("charges", some (.text "three")), ("charges", some (.whole 300)), ("crit", some (.ofFloat 3)), ("charges", none),
    ("targets", some (.array [.whole 1, .whole 0x80000000])), ("odds", some (.ofFloat (1 / 0)))]

theorem extras_of_history_battle :
    let after := empty.keepAll battle
    after.contains "charges" = true ∧ after.contains "missing" = false ∧
      (∃ n : Int32, after.get? Int32 "charges" = some n ∧ n.toInt = 300) ∧ after.get? UInt8 "charges" = none ∧
      after.get? Float "crit" = some 3 ∧ after.get? Int64 "crit" = none ∧
      after.get? (List Int32) "targets" = none ∧ after.get? (Option Int32) "odds" = some none := by
  intro after
  obtain ⟨hcharges, -, hlast⟩ := extras_of_history empty battle "charges"
  obtain ⟨-, hwhole, -⟩ := hlast (battle.take 1) (.whole 300) (battle.drop 2) rfl (by decide)
  have hcharges' := hwhole 300 rfl
  have hmissing := (extras_of_history empty battle "missing").1
  obtain ⟨-, -, -, hcrit, -⟩ := (extras_of_history empty battle "crit").2.2 (battle.take 2) (.ofFloat 3)
    (battle.drop 3) rfl (by decide)
  have hcrit' : after.ReadsDouble "crit" 3 := hcrit 3 rfl
  obtain ⟨-, -, -, -, htargets, -⟩ := (extras_of_history empty battle "targets").2.2 (battle.take 4)
    (.array [.whole 1, .whole 0x80000000]) (battle.drop 5) rfl (by decide)
  have htargets' := htargets [1, 0x80000000] rfl
  obtain ⟨-, -, -, hodds, -⟩ := (extras_of_history empty battle "odds").2.2 (battle.take 5) (.ofFloat (1 / 0)) []
    rfl (by decide)
  have hodds' : after.ReadsNull "odds" := hodds (1 / 0) rfl
  refine ⟨hcharges.2 (.inr ⟨.whole 300, by simp [battle]⟩), ?_, (hcharges' .int32).1 ?_, (hcharges' .uint8).2 ?_,
    hcrit'.1, hcrit'.2 .int64, htargets'.2 ?_, hodds'.1⟩
  · have hempty : empty.contains "missing" = false := rfl
    rw [Bool.eq_false_iff, ne_eq, hmissing]
    simp [battle, hempty]
  · simp [WholeType.Contains]
  · simp [WholeType.Contains]
  · simp [WholeType.Contains]

end Context

end Formulary
