import Mathlib.Data.List.Forall2
import Formulary.Document.Basic
import Formulary.Document.Record

/-!
# Reading what was written, part by part

What is proved of a reader and a writer is that reading gives the value back if it is good and nothing otherwise, which
is `Option.guard good x`. A list is read back if all of it is good (`mapM_map_guard`), and what is made of some parts if
these are (`guard_bind`, `guard_bind_two`).
-/

namespace Formulary

/-! ## Lists and slots -/

section
variable {α β γ δ : Type} {p : α → Bool} {q : β → Bool} {r : γ → Bool} {a : α} {b : β} {c : γ}

theorem guard_bind {f : α → β} (h : q (f a) = p a) :
    ((Option.guard p a).bind fun a => some (f a)) = Option.guard q (f a) := by
  cases hp : p a <;> simp [Option.guard, h, hp]

theorem guard_bind_two {f : α → β → γ} (h : r (f a b) = (p a && q b)) :
    ((Option.guard p a).bind fun a => (Option.guard q b).bind fun b => some (f a b)) = Option.guard r (f a b) := by
  cases hp : p a with
  | false => simp [Option.guard, h, hp]
  | true =>
    rw [Option.guard_eq_ite, if_pos hp, Option.bind_some]
    exact guard_bind (by rw [h, hp, Bool.true_and])

theorem guard_bind_three {good : δ → Bool} {f : α → β → γ → δ} (h : good (f a b c) = (p a && (q b && r c))) :
    ((Option.guard p a).bind fun a => (Option.guard q b).bind fun b => (Option.guard r c).bind fun c =>
      some (f a b c)) = Option.guard good (f a b c) := by
  cases hp : p a with
  | false => simp [Option.guard, h, hp]
  | true =>
    rw [Option.guard_eq_ite, if_pos hp, Option.bind_some]
    exact guard_bind_two (by rw [h, hp, Bool.true_and])

end

/-- A list is read back if all of its items are. -/
theorem mapM_map_guard {α β : Type} {read : β → Option α} {write : α → β} {good : α → Bool} {xs : List α}
    (h : ∀ x ∈ xs, read (write x) = Option.guard good x) :
    (xs.map write).mapM read = Option.guard (·.all good) xs := by
  induction xs with
  | nil => rfl
  | cons x xs ih =>
    have hx := h x List.mem_cons_self
    have hxs := ih fun y hy => h y (List.mem_cons_of_mem x hy)
    rw [List.map_cons, List.mapM_cons, hx, hxs]
    exact guard_bind_two List.all_cons

/-- A list of values that are always read back is read back. -/
theorem mapM_map_of_read {α β : Type} {read : β → Option α} {write : α → β} (h : ∀ x, read (write x) = some x)
    (xs : List α) : (xs.map write).mapM read = some xs := by
  rw [mapM_map_guard fun x _ => show _ = Option.guard (fun _ => true) x from h x]
  simp [Option.guard]

theorem mapM_eq_some_iff {α β : Type} {f : α → Option β} {xs : List α} {ys : List β} :
    xs.mapM f = some ys ↔ List.Forall₂ (fun x y => f x = some y) xs ys := by
  induction xs generalizing ys with
  | nil => simp [eq_comm]
  | cons x xs ih =>
    simp only [List.mapM_cons, Option.bind_eq_bind, Option.bind_eq_some_iff, ih, List.forall₂_cons_left_iff]
    constructor
    · rintro ⟨y, hy, ys', hys, heq⟩
      exact ⟨y, ys', hy, hys, (Option.some.inj heq).symm⟩
    · rintro ⟨y, ys', hy, hys, rfl⟩
      exact ⟨y, hy, ys', hys, rfl⟩

/-- Where something other than `null` stands, a slot is read as what it holds. -/
theorem Json.toOption?_of_ne_null {α : Type} {read : Json → Option α} {j : Json} (h : j ≠ .null) :
    Json.toOption? read j = (read j).map some := by
  cases j with
  | null => exact absurd rfl h
  | _ => rfl

/-! ## Numbers, ids and entries -/

theorem Json.fits_int32 (n : Int32) : Json.Fits n.toInt := by
  have hlow := Int32.le_toInt n
  have hhigh := Int32.toInt_lt n
  simp only [Json.Fits]
  omega

theorem ofJson?_toJson_int32 (n : Int32) : (Document.ofJson? (Document.toJson n) : Option Int32) = some n := by
  show Json.toRange? Int32.ofInt Int32.toInt (.whole n.toInt) = some n
  rw [Json.toRange?, Int32.ofInt_toInt, if_pos rfl]

theorem Json.fits_uint32 (n : UInt32) : Json.Fits n.toNat := by
  have hhigh := n.toNat_lt
  simp only [Json.Fits]
  omega

theorem ofJson?_toJson_uint32 (n : UInt32) : (Document.ofJson? (Document.toJson n) : Option UInt32) = some n := by
  show Json.toRange? (fun n => UInt32.ofNat n.toNat) (fun n => n.toNat) (.whole n.toNat) = some n
  simp [Json.toRange?]

/-- A double is read back if it is finite. -/
theorem Json.toFloat?_ofFloat (x : Float) : (Json.ofFloat x).toFloat? = Option.guard Float.isFinite x := by
  cases h : x.isFinite <;> simp [Json.ofFloat, Json.toFloat?, Option.guard, h]

theorem ofJson?_toJson_id {k : IdKind} (i : Id k) : (Document.ofJson? (Document.toJson i) : Option (Id k)) = some i :=
  rfl

/-- Entries are read as the table that they describe. -/
theorem ofJson?_entries {α : Type} [Document α] {k : IdKind}
    (h : ∀ a : α, (Document.ofJson? (Document.toJson a) : Option α) = some a) (entries : List (Id k × α)) :
    (Document.ofJson? (.object (entries.map fun x => (x.1.name, Document.toJson x.2))) : Option (Table (Id k) α)) =
      some (.ofList entries) := by
  have hmember (x : Id k × α) : Document.member? (x.1.name, Document.toJson x.2) = some x := by
    rw [Document.member?, h]
    rfl
  show Option.map Table.ofList _ = _
  rw [mapM_map_of_read hmember, Option.map_some]

/-! ## Records -/

namespace Record

/-- An object that gives no name twice spells a record, whatever the parts of the record are. -/
theorem ofMembers?_of_nodup_names (names : List String) {members : List (String × Json)}
    (h : (members.map (·.1)).Nodup) : ofMembers? names members = some ⟨false, members⟩ := by
  rw [ofMembers?, if_pos]
  intro name _
  have hcount : members.countP (·.1 = name) = (members.map (·.1)).count name := by
    rw [List.count, List.countP_map]
    refine List.countP_congr fun m _ => ?_
    simp
  rw [hcount]
  exact List.nodup_iff_count.1 h name

/-- An object that gives the parts of a record in their order, each once, spells that record. -/
theorem ofMembers?_of_nodup {names : List String} {members : List (String × Json)}
    (h : members.map (·.1) = names) (hnames : names.Nodup) :
    ofMembers? names members = some ⟨false, members⟩ :=
  ofMembers?_of_nodup_names names (h ▸ hnames)

theorem get?_cons_self (positional : Bool) (name : String) (j : Json) (members : List (String × Json)) :
    get? ⟨positional, (name, j) :: members⟩ name = some j := by
  simp [get?]

theorem get?_cons_ne (positional : Bool) {name other : String} (h : other ≠ name) (j : Json)
    (members : List (String × Json)) :
    get? ⟨positional, (other, j) :: members⟩ name = get? ⟨positional, members⟩ name := by
  simp [get?, h]

end Record

end Formulary
