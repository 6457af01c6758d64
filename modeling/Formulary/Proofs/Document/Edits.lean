import Mathlib.Logic.Relation
import Formulary.Proofs.Document.Senses

/-!
# Edits that say nothing

The members of an object may stand in any order, a record does not mind members that it does not know, and what may
be left out may also be written out. Edits of these kinds, anywhere in a document, leave the expression that it
spells as it is: `Expr.parse_of_edits`.
-/

namespace Formulary

open Json (given bracketDepth)

def Sense.isRecord : Sense → Bool
  | .node _ | .slot | .derivedStat | .modifier => true
  | _ => false

/-- The sense of the items of an array, if it may be edited item by item. -/
def Sense.item? : Sense → Option Sense
  | .slots => some .slot
  | .modifiers => some .modifier
  | .ignored => some .ignored
  | _ => none

/-- An edit, somewhere in a value that is read in some sense. -/
inductive Edit : Sense → Json → Json → Prop where
  /-- The members of an object in another order. -/
  | permute {sense : Sense} {members members' : List (String × Json)} :
    members.Perm members' → Edit sense (.object members) (.object members')
  /-- One more member, which the record does not know. -/
  | insert {sense : Sense} {before after : List (String × Json)} {name : String} {j : Json} :
    sense.isRecord = true → name ∉ (sense.fields (before ++ after)).map (·.1) → j.readable = true →
      Edit sense (.object (before ++ after)) (.object (before ++ (name, j) :: after))
  /-- A part that is left out written out. -/
  | spellOut {sense part : Sense} {before after : List (String × Json)} {name : String} {j : Json} :
    (name, part) ∈ sense.fields (before ++ after) → part.blank? = some j → name ∉ (before ++ after).map (·.1) →
      Edit sense (.object (before ++ after)) (.object (before ++ (name, j) :: after))
  /-- A part that is written out left out. -/
  | leaveOut {sense part : Sense} {before after : List (String × Json)} {name : String} {j : Json} :
    (name, part) ∈ sense.fields (before ++ after) → part.blank? = some j → name ∉ (before ++ after).map (·.1) →
      Edit sense (.object (before ++ (name, j) :: after)) (.object (before ++ after))
  /-- An edit inside a part of a record. -/
  | part {sense part : Sense} {before after : List (String × Json)} {name : String} {j j' : Json} :
    (name, part) ∈ sense.fields (before ++ (name, j) :: after) → Edit part j j' →
      Edit sense (.object (before ++ (name, j) :: after)) (.object (before ++ (name, j') :: after))
  /-- An edit inside a member that is no part of a record. -/
  | aside {sense : Sense} {before after : List (String × Json)} {name : String} {j j' : Json} :
    name ∉ (sense.fields (before ++ (name, j) :: after)).map (·.1) → Edit .ignored j j' →
      Edit sense (.object (before ++ (name, j) :: after)) (.object (before ++ (name, j') :: after))
  /-- An edit inside an item of a list. -/
  | item {sense part : Sense} {before after : List Json} {j j' : Json} :
    sense.item? = some part → Edit part j j' →
      Edit sense (.array (before ++ j :: after)) (.array (before ++ j' :: after))

/-! ## What an edit leaves as it is -/

theorem Operator.read?_perm {members members' : List (String × Json)} (h : members.Perm members') :
    Operator.read? .inner (.object members) = Operator.read? .inner (.object members') := by
  match members, members', h with
  | [], _, h => rw [List.nil_perm.1 h]
  | [m], _, h => rw [List.singleton_perm.1 h]
  | _ :: _ :: _, [], h => exact absurd h.length_eq (by simp)
  | _ :: _ :: _, [m], h => exact absurd h.length_eq (by simp)
  | _ :: _ :: _, _ :: _ :: _, _ => rfl

theorem Edit.isUnit_eq {sense : Sense} {j j' : Json} (h : Edit sense j j') (hsense : sense = .ignored) :
    Place.inner.isUnit j = Place.inner.isUnit j' := by
  subst hsense
  have hmiddle (before after : List (String × Json)) (m : String × Json) :
      Place.inner.isUnit (.object (before ++ m :: after)) = false := by
    cases before <;> rfl
  cases h with
  | @permute _ members members' hperm =>
    match members, members', hperm with
    | [], _, h => rw [List.nil_perm.1 h]
    | _ :: _, [], h => exact absurd h.length_eq (by simp)
    | _ :: _, _ :: _, _ => rfl
  | insert hrecord => exact absurd hrecord (by decide)
  | spellOut hpart => exact absurd hpart (List.not_mem_nil)
  | leaveOut hpart => exact absurd hpart (List.not_mem_nil)
  | part hpart => exact absurd hpart (List.not_mem_nil)
  | aside => rw [hmiddle, hmiddle]
  | item => rfl

theorem Operator.read?_middle {j j' : Json} (h : Place.inner.isUnit j = Place.inner.isUnit j')
    (before after : List (String × Json)) (name : String) :
    Operator.read? .inner (.object (before ++ (name, j) :: after)) =
      Operator.read? .inner (.object (before ++ (name, j') :: after)) := by
  match before, after with
  | [], [] => simp only [List.nil_append, Operator.read?, h]
  | [], _ :: _ => rfl
  | [_], _ => rfl
  | _ :: _ :: _, _ => rfl

/-- An edit of one member leaves the others as they are. -/
theorem Sense.alike_middle_ne (sense : Sense) {name other : String} (h : other ≠ name)
    (before after : List (String × Json)) (j j' : Json) :
    sense.Alike (given (before ++ (other, j) :: after) name) (given (before ++ (other, j') :: after) name) := by
  rw [Json.given_middle_ne h, Json.given_middle_ne h]
  exact sense.alike_refl _

/-- Writing out a part that an object does not give. -/
theorem Sense.alike_spellOut {sense part : Sense} {before after : List (String × Json)} {name : String} {j : Json}
    (hpart : (name, part) ∈ sense.fields (before ++ after)) (hblank : part.blank? = some j)
    (hname : name ∉ (before ++ after).map (·.1)) {f : String × Sense} (hf : f ∈ sense.fields (before ++ after)) :
    f.2.Alike (given (before ++ after) f.1) (given (before ++ (name, j) :: after) f.1) := by
  obtain ⟨other, part'⟩ := f
  by_cases heq : name = other
  · subst heq
    obtain rfl := Sense.eq_of_mem_fields hpart hf
    rw [List.map_append, List.mem_append, not_or] at hname
    rw [Json.given_middle, Json.given_eq_nil hname.1, Json.given_eq_nil hname.2, Json.given_eq_nil]
    · exact Sense.alike_blank hblank
    · rw [List.map_append, List.mem_append, not_or]
      exact hname
  · rw [Json.given_middle_ne heq]
    exact part'.alike_refl _

/-- **An edit does not change what a value is read as**, whatever its sense. -/
theorem Edit.read?_eq {sense : Sense} {j j' : Json} (h : Edit sense j j') : sense.read? j = sense.read? j' := by
  have hnone {sense part : Sense} {members : List (String × Json)} {name : String} {p : Prop}
      (hpart : (name, part) ∈ sense.fields members) (h : sense = .operator) : p := by
    subst h
    exact absurd hpart List.not_mem_nil
  induction h with
  | @permute sense members members' hperm =>
    exact Sense.read?_object_congr sense (fun f _ => f.2.alike_of_perm (Json.given_perm hperm f.1))
      fun _ => Operator.read?_perm hperm
  | @insert sense before after name j hrecord hname _ =>
    refine Sense.read?_object_congr sense (fun f hf => ?_) fun h => absurd hrecord (by rw [h]; decide)
    have hne : name ≠ f.1 := fun heq => hname (List.mem_map.2 ⟨f, hf, heq.symm⟩)
    rw [Json.given_middle_ne hne]
    exact f.2.alike_refl _
  | spellOut hpart hblank hname =>
    exact Sense.read?_object_congr _ (fun f hf => Sense.alike_spellOut hpart hblank hname hf) (hnone hpart)
  | leaveOut hpart hblank hname =>
    exact (Sense.read?_object_congr _ (fun f hf => Sense.alike_spellOut hpart hblank hname hf) (hnone hpart)).symm
  | @part sense part before after name j j' hpart _ ih =>
    refine Sense.read?_object_congr sense (fun f hf => ?_) (hnone hpart)
    obtain ⟨other, part'⟩ := f
    by_cases heq : name = other
    · subst heq
      obtain rfl := Sense.eq_of_mem_fields hpart hf
      rw [Json.given_middle, Json.given_middle]
      exact Sense.alike_middle ih _ _
    · exact part'.alike_middle_ne heq before after j j'
  | @aside sense before after name j j' hname hedit _ =>
    refine Sense.read?_object_congr sense (fun f hf => ?_) fun _ => Operator.read?_middle (hedit.isUnit_eq rfl) ..
    have hne : name ≠ f.1 := fun heq => hname (List.mem_map.2 ⟨f, hf, heq.symm⟩)
    exact f.2.alike_middle_ne hne before after j j'
  | @item sense part before after j j' hitem _ ih =>
    have hlist {α : Type} {f : Json → Option α} (h : f j = f j') :
        Json.toList? f (.array (before ++ j :: after)) = Json.toList? f (.array (before ++ j' :: after)) := by
      simp only [Json.toList?, List.mapM_append, List.mapM_cons, h]
    cases sense with
    | slots =>
      obtain rfl := Option.some.inj hitem
      exact hlist ih
    | modifiers =>
      obtain rfl := Option.some.inj hitem
      exact hlist ih
    | ignored => rfl
    | _ => exact absurd hitem (by simp [Sense.item?])

theorem Json.readableMembers_append (members members' : List (String × Json)) :
    readableMembers (members ++ members') = (readableMembers members && readableMembers members') := by
  rw [readableMembers_eq_all, readableMembers_eq_all, readableMembers_eq_all, List.all_append]

theorem Sense.readable_blank {sense : Sense} {j : Json} (h : sense.blank? = some j) : j.readable = true := by
  cases sense with
  | slot | slots | modifiers =>
    obtain rfl := Option.some.inj h
    rfl
  | _ => exact absurd h (by simp [blank?])

/-- An edit neither adds nor removes anything unreadable. -/
theorem Edit.readable_eq {sense : Sense} {j j' : Json} (h : Edit sense j j') : j.readable = j'.readable := by
  have hmiddle {before after : List (String × Json)} {name : String} {j : Json} (h : j.readable = true) :
      (Json.object (before ++ (name, j) :: after)).readable = (Json.object (before ++ after)).readable := by
    simp only [Json.readable, Json.readableMembers_append, Json.readableMembers, h, Bool.true_and]
  induction h with
  | permute hperm =>
    rw [Json.readable, Json.readable, Json.readableMembers_eq_all, Json.readableMembers_eq_all]
    exact hperm.all_eq
  | insert _ _ hj => exact (hmiddle hj).symm
  | spellOut _ hblank _ => exact (hmiddle (Sense.readable_blank hblank)).symm
  | leaveOut _ hblank _ => exact hmiddle (Sense.readable_blank hblank)
  | part _ _ ih => simp only [Json.readable, Json.readableMembers_append, Json.readableMembers, ih]
  | aside _ _ ih => simp only [Json.readable, Json.readableMembers_append, Json.readableMembers, ih]
  | item _ _ ih => simp only [Json.readable, Json.readableItems_eq_all, List.all_append, List.all_cons, ih]

/-! ## Documents -/

namespace Expr

/-- Any number of edits leave the expression that a value spells as it is. -/
theorem read?_of_edits {j j' : Json} (h : Relation.ReflTransGen (Edit (.node .outer)) j j') : read? j = read? j' := by
  induction h with
  | refl => rfl
  | @tail k k' _ hedit ih =>
    have hread : readAt .outer k = readAt .outer k' := hedit.read?_eq
    rw [ih, read?, read?, hedit.readable_eq]
    split
    · exact hread
    · rfl

/-- **Edits that say nothing do not change the expression that a document spells.** However the members of its
objects are ordered, whatever members are added that nobody knows, and whether blank parts are written out or left
out: if the document was accepted, it still is, as the same tree, unless it now nests too deep. -/
theorem parse_of_edits {s s' : String} {j j' : Json} {e : Expr} (hs : Json.value? s = some j)
    (h : (Document.parse s : Except FormulaError Expr) = .ok e)
    (hedits : Relation.ReflTransGen (Edit (.node .outer)) j j') (hs' : Json.value? s' = some j')
    (hdepth : bracketDepth s' ≤ 127) : (Document.parse s' : Except FormulaError Expr) = .ok e := by
  have hread := ((parse_eq_ok_iff hs).1 h).2
  rw [read?_of_edits hedits] at hread
  exact (parse_eq_ok_iff hs').2 ⟨hdepth, hread⟩

/-- A power of two, the exponent of which is still to come. -/
def terse : Json :=
  .object [("base", .object [("value", .whole 2), ("kind", .text "constant")]), ("kind", .text "power")]

/-- The same with everything written out. -/
def verbose : Json :=
  .object [("kind", .text "power"), ("base", .object [("kind", .text "constant"), ("value", .whole 2)]),
    ("exponent", .null), ("note", .text "to do")]

theorem edits_terse_verbose : Relation.ReflTransGen (Edit (.node .outer)) terse verbose := by
  let kind : String × Json := ("kind", .text "power")
  let base : Json := .object [("value", .whole 2), ("kind", .text "constant")]
  let base' : Json := .object [("kind", .text "constant"), ("value", .whole 2)]
  have hswap : Edit (.node .outer) terse (.object ([kind] ++ ("base", base) :: [])) := .permute (.swap ..)
  have hslot : Edit .slot base base' := .permute (.swap ..)
  have hbase : Edit (.node .outer) (.object ([kind] ++ ("base", base) :: []))
      (.object ([kind] ++ ("base", base') :: [])) :=
    .part (by decide) hslot
  have hpart : ("exponent", Sense.slot) ∈ (Sense.node .outer).fields ([kind, ("base", base')] ++ []) := by decide
  have hexponent : Edit (.node .outer) (.object ([kind, ("base", base')] ++ []))
      (.object ([kind, ("base", base')] ++ ("exponent", .null) :: [])) :=
    .spellOut hpart rfl (by decide)
  have hnote : Edit (.node .outer) (.object ([kind, ("base", base'), ("exponent", .null)] ++ [])) verbose :=
    .insert rfl (by decide) rfl
  exact .tail (.tail (.tail (.single hswap) hbase) hexponent) hnote

theorem parse_verbose :
    (Document.parse (verbose.render .indented) : Except FormulaError Expr) =
      .ok (.power (some (.constant (.ofInt 2))) none) := by
  have hterse : Json.Restorable terse := by simp [terse, Json.Restorable, Json.RestorableMembers, Json.Fits]
  have hverbose : Json.Restorable verbose := by simp [verbose, Json.Restorable, Json.RestorableMembers, Json.Fits]
  have hparse : (Document.parse (terse.render .compact) : Except FormulaError Expr) =
      .ok (.power (some (.constant (.ofInt 2))) none) := by
    refine (parse_eq_ok_iff (Json.value?_render .compact hterse)).2 ⟨?_, rfl⟩
    rw [Json.bracketDepth_render]
    decide
  refine parse_of_edits (Json.value?_render .compact hterse) hparse edits_terse_verbose
    (Json.value?_render .indented hverbose) ?_
  rw [Json.bracketDepth_render]
  decide

end Expr

end Formulary
