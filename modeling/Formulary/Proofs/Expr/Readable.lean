import Formulary.Proofs.Expr.Outline

/-!
# Texts that identify expressions

Expressions that are shown alike have the same reduced tree (`display_eq_iff`). Legible trees have no sum or product of
fewer than two operands, which would show no operator, and no stat by the name of something else.

The proof reads two equal texts side by side (`ReadAlike`), by recursion over one of the trees.
-/

namespace Formulary.Expr

/-! ## Legible trees -/

/-- A sum or product has two operands at least, and what is looked up has the name of a stat. -/
def IsProper : Expr → Prop
  | .chain .addition xs | .chain .multiplication xs => 2 ≤ xs.length
  | .coreStat stat => IsStatName stat.name
  | .derivedStat stat => IsStatName stat.id.name
  | _ => True

/-- Every node of the tree is proper. -/
def Legible (e : Expr) : Prop :=
  ∀ address node, e.at? address = some node → node.IsProper

def LegibleSlot (x : Option Expr) : Prop :=
  ∀ e, x = some e → e.Legible

theorem Legible.isProper {e : Expr} (h : e.Legible) : e.IsProper :=
  h [] e rfl

theorem Legible.slot {e : Expr} (h : e.Legible) {x : Option Expr} (hx : x ∈ e.slots) : LegibleSlot x := by
  rintro a rfl address node hnode
  obtain ⟨index, hindex⟩ := List.mem_iff_getElem?.1 hx
  refine h (index :: address) node ?_
  rw [at?, hindex]
  exact hnode

theorem Legible.of_slots {e : Expr} (he : e.IsProper) (hslots : ∀ x ∈ e.slots, LegibleSlot x) : e.Legible := by
  intro address node h
  cases address with
  | nil =>
    obtain rfl := Option.some.inj h
    exact he
  | cons index rest =>
    rw [at?] at h
    split at h
    · next a ha => exact hslots _ (List.mem_of_getElem? ha) a rfl rest node h
    · cases h

theorem legible_constant (x : Float) : Legible (.constant x) :=
  .of_slots trivial nofun

theorem isProper_of_outlineSlot {x : Option Expr} {w : Word} (hx : LegibleSlot x) (h : outlineSlot x = .word w) :
    w.IsProper := by
  cases x with
  | none =>
    obtain rfl := Outline.word.inj h
    trivial
  | some e =>
    have he := (hx e rfl).isProper
    rw [outlineSlot] at h
    cases e with
    | constant x | euler | mastery =>
      obtain rfl := Outline.word.inj h
      trivial
    | coreStat stat | derivedStat stat =>
      obtain rfl := Outline.word.inj h
      exact he
    | _ => cases h

section
variable {e : Expr} {name : List Char} {joint : Joint} {items : List (Option Expr)}
  (h : e.outline = .call name joint items)
include h

/-- The items are the operands, but for the number that a chain starts from. -/
theorem legible_items (he : e.Legible) : ∀ x ∈ items, LegibleSlot x := by
  intro x hx
  cases e with
  | chain op xs =>
    obtain ⟨-, -, rfl⟩ := Outline.call.inj h
    rcases List.mem_append.1 hx with hx | hx
    · obtain ⟨v, rfl⟩ := Operator.exists_of_mem_seed hx
      rintro _ ⟨⟩
      exact legible_constant v
    · exact he.slot hx
  | extremum side xs | power a b | exponential a | logarithmic a b | clamp a b c =>
    obtain ⟨-, -, rfl⟩ := Outline.call.inj h
    exact he.slot hx
  | _ => cases h

theorem isWordChar_of_mem_name : ∀ c ∈ name, isWordChar c = true := by
  cases e with
  | extremum side xs =>
    obtain ⟨rfl, -, -⟩ := Outline.call.inj h
    cases side <;> simp [Extremum.word, isWordChar]
  | chain op xs | power a b | exponential a | logarithmic a b | clamp a b c =>
    obtain ⟨rfl, -, -⟩ := Outline.call.inj h
    simp [isWordChar]
  | _ => cases h

/-- The only parentheses without a name and without a joint are those of a subtraction and of a division, and they
differ in the number that they start from. -/
theorem joint_of_name_eq_nil (he : e.IsProper) (hname : name = []) (hlength : items.length < 2) :
    joint = .operator .subtraction ∧ items = [some (.constant 0)] ∨
      joint = .operator .division ∧ items = [some (.constant 1)] := by
  cases e with
  | chain op xs =>
    obtain ⟨-, rfl, rfl⟩ := Outline.call.inj h
    cases op with
    | addition => exact absurd he (Nat.not_le_of_lt hlength)
    | multiplication => exact absurd he (Nat.not_le_of_lt hlength)
    | subtraction =>
      obtain rfl : xs = [] := by simpa [Operator.seed] using hlength
      exact .inl ⟨rfl, rfl⟩
    | division =>
      obtain rfl : xs = [] := by simpa [Operator.seed] using hlength
      exact .inr ⟨rfl, rfl⟩
  | power a b =>
    obtain ⟨-, -, rfl⟩ := Outline.call.inj h
    exact absurd hlength (by simp)
  | extremum side xs =>
    obtain ⟨rfl, -, -⟩ := Outline.call.inj h
    cases side <;> cases hname
  | exponential a | logarithmic a b | clamp a b c =>
    obtain ⟨rfl, -, -⟩ := Outline.call.inj h
    cases hname
  | _ => cases h

theorem joint_of_name_ne_nil (hname : name ≠ []) : joint = .comma := by
  cases e with
  | chain op xs | power a b =>
    obtain ⟨rfl, -, -⟩ := Outline.call.inj h
    exact absurd rfl hname
  | extremum side xs | exponential a | logarithmic a b | clamp a b c =>
    obtain ⟨-, rfl, -⟩ := Outline.call.inj h
    rfl
  | _ => cases h

variable {e' : Expr} {joint' : Joint} {items' : List (Option Expr)} (h' : e'.outline = .call name joint' items')
  (he : e.IsProper) (he' : e'.IsProper) (hitems : reducedSlots items = reducedSlots items')
  (hjoint : 2 ≤ items.length → joint = joint')
include h' he he' hitems hjoint

/-- Two nodes with one name and the same items have the same joint, be there one in the text or not. -/
theorem joint_eq_of_parts : joint = joint' := by
  have hlength : items.length = items'.length := by
    rw [← length_reducedSlots items, hitems, length_reducedSlots]
  have hstart : (0 : Float) ≠ 1 := by decide +kernel
  by_cases hname : name = []
  · by_cases hshort : items.length < 2
    · rcases joint_of_name_eq_nil h he hname hshort with ⟨rfl, rfl⟩ | ⟨rfl, rfl⟩ <;>
        rcases joint_of_name_eq_nil h' he' hname (hlength ▸ hshort) with ⟨rfl, rfl⟩ | ⟨rfl, rfl⟩
      · rfl
      · exact absurd hitems (by simpa [reducedSlots, reducedSlot, reduced] using hstart)
      · exact absurd hitems (by simpa [reducedSlots, reducedSlot, reduced] using hstart.symm)
      · rfl
    · exact hjoint (Nat.le_of_not_lt hshort)
  · rw [joint_of_name_ne_nil h hname, joint_of_name_ne_nil h' hname]

/-- So they have the same reduced tree. -/
theorem reduced_eq_of_parts : e.reduced = e'.reduced := by
  have htree := tree?_of_outline h
  rw [hitems, joint_eq_of_parts h h' he he' hitems hjoint, tree?_of_outline h'] at htree
  exact (Option.some.inj htree).symm

end

/-! ## Where texts end -/

/-- What follows a text separates it from what comes next. -/
def Delimited (rest : List Char) : Prop :=
  ∀ c ∈ rest.head?, c = ' ' ∨ c = ',' ∨ c = ')'

theorem delimited_nil : Delimited [] :=
  nofun

theorem delimited_close (rest : List Char) : Delimited (')' :: rest) := by
  simp [Delimited]

theorem delimited_joint (joint : Joint) (rest : List Char) : Delimited (joint.text ++ rest) := by
  obtain ⟨c, t, htext, hc⟩ := joint.head_text
  rw [htext]
  rcases hc with rfl | rfl
  · simp [Delimited]
  · simp [Delimited]

theorem joint_ne_close (joint : Joint) (r r' : List Char) : joint.text ++ r ≠ ')' :: r' := by
  obtain ⟨c, t, htext, hc⟩ := joint.head_text
  rw [htext]
  rcases hc with rfl | rfl
  · simp
  · simp

theorem delimited_following (joint : Joint) (xs : List (Option Expr)) (rest : List Char) :
    Delimited (following joint.text xs (')' :: rest)) := by
  cases xs with
  | nil => exact delimited_close rest
  | cons x xs => exact delimited_joint joint _

theorem Delimited.isWordChar {rest : List Char} (h : Delimited rest) : ∀ c ∈ rest.head?, isWordChar c = false := by
  intro c hc
  rcases h c hc with rfl | rfl | rfl <;> rfl

theorem head_open_isWordChar (rest : List Char) : ∀ c ∈ ('(' :: rest).head?, isWordChar c = false := by
  intro c hc
  obtain rfl := Option.some.inj hc
  rfl

theorem exists_of_outlineSlot_eq_call {x : Option Expr} {name : List Char} {joint : Joint} {items : List (Option Expr)}
    (h : outlineSlot x = .call name joint items) : ∃ e, x = some e ∧ e.outline = .call name joint items := by
  cases x with
  | none => cases h
  | some e => exact ⟨e, rfl, h⟩

/-- A text does not begin with a closing parenthesis. -/
theorem shownSlot_ne_close {x : Option Expr} (hx : LegibleSlot x) (r r' : List Char) : shownSlot x r ≠ ')' :: r' := by
  have hclose : isWordChar ')' ≠ true := by decide
  rw [shownSlot_eq]
  cases h : outlineSlot x with
  | word w =>
    have hw := isProper_of_outlineSlot hx h
    have hchars := Word.isWordChar_of_mem hw
    obtain ⟨c, t, htext⟩ := List.exists_cons_of_ne_nil (Word.text_ne_nil hw)
    rw [Outline.chars, htext]
    intro heq
    obtain rfl := (List.cons.inj heq).1
    exact hclose (hchars ')' (by simp [htext]))
  | call name joint items =>
    cases x with
    | none => cases h
    | some e =>
      have hname := isWordChar_of_mem_name h
      cases name with
      | nil => simp [Outline.chars]
      | cons c name =>
        intro heq
        obtain rfl := (List.cons.inj heq).1
        exact hclose (hname ')' List.mem_cons_self)

/-! ## Reading two texts side by side -/

/-- A text that is equal to that of `x`, up to where it ends, is that of the same slot and ends there too. -/
def ReadAlike (x : Option Expr) : Prop :=
  ∀ ⦃x' : Option Expr⦄ ⦃r r' : List Char⦄, LegibleSlot x → LegibleSlot x' → Delimited r → Delimited r' →
    shownSlot x r = shownSlot x' r' → reducedSlot x = reducedSlot x' ∧ r = r'

section
variable {joint joint' : Joint} {r r' : List Char}

/-- Items that stand behind an item are read one by one, each after its joint. -/
theorem readAlike_following {xs xs' : List (Option Expr)} (hread : ∀ x ∈ xs, ReadAlike x)
    (hxs : ∀ x ∈ xs, LegibleSlot x) (hxs' : ∀ x ∈ xs', LegibleSlot x)
    (h : following joint.text xs (')' :: r) = following joint'.text xs' (')' :: r')) :
    reducedSlots xs = reducedSlots xs' ∧ r = r' ∧ (xs ≠ [] → joint = joint') := by
  induction xs generalizing xs' with
  | nil =>
    cases xs' with
    | nil => exact ⟨rfl, (List.cons.inj h).2, fun hne => absurd rfl hne⟩
    | cons x' xs' => exact absurd h.symm (joint_ne_close _ _ _)
  | cons x xs ih =>
    cases xs' with
    | nil => exact absurd h (joint_ne_close _ _ _)
    | cons x' xs' =>
      rw [List.forall_mem_cons] at hread hxs hxs'
      obtain ⟨hjoint, htext⟩ := Joint.text_append_inj h
      obtain ⟨hx, hrest⟩ := hread.1 hxs.1 hxs'.1 (delimited_following joint xs r)
        (delimited_following joint' xs' r') htext
      obtain ⟨hitems, hr, -⟩ := ih hread.2 hxs.2 hxs'.2 hrest
      exact ⟨by rw [reducedSlots, reducedSlots, hx, hitems], hr, fun _ => hjoint⟩

/-- Items in parentheses are read one by one up to the closing one. -/
theorem readAlike_separated {xs xs' : List (Option Expr)} (hread : ∀ x ∈ xs, ReadAlike x)
    (hxs : ∀ x ∈ xs, LegibleSlot x) (hxs' : ∀ x ∈ xs', LegibleSlot x)
    (h : separated joint.text xs (')' :: r) = separated joint'.text xs' (')' :: r')) :
    reducedSlots xs = reducedSlots xs' ∧ r = r' ∧ (2 ≤ xs.length → joint = joint') := by
  cases xs with
  | nil =>
    cases xs' with
    | nil => exact ⟨rfl, (List.cons.inj h).2, fun hlen => absurd hlen (by decide)⟩
    | cons x' xs' => exact absurd h.symm (shownSlot_ne_close (hxs' x' List.mem_cons_self) _ _)
  | cons x xs =>
    cases xs' with
    | nil => exact absurd h (shownSlot_ne_close (hxs x List.mem_cons_self) _ _)
    | cons x' xs' =>
      rw [List.forall_mem_cons] at hread hxs hxs'
      obtain ⟨hx, hrest⟩ := hread.1 hxs.1 hxs'.1 (delimited_following joint xs r)
        (delimited_following joint' xs' r') h
      obtain ⟨hitems, hr, hjoint⟩ := readAlike_following hread.2 hxs.2 hxs'.2 hrest
      refine ⟨by rw [reducedSlots, reducedSlots, hx, hitems], hr, fun hlength => hjoint ?_⟩
      rintro rfl
      exact absurd hlength (by simp)

end

/-- Behind a word something separates it, behind a name the parentheses open. -/
theorem word_ne_call {w : Word} (hw : w.IsProper) {e : Expr} {name : List Char} {joint : Joint}
    {items : List (Option Expr)} (hcall : e.outline = .call name joint items) {r : List Char} (hr : Delimited r)
    (r' : List Char) : (Outline.word w).chars r ≠ (Outline.call name joint items).chars r' := by
  intro h
  obtain ⟨-, rfl⟩ := append_inj_of_head (Word.isWordChar_of_mem hw) (isWordChar_of_mem_name hcall) hr.isWordChar
    (head_open_isWordChar _) h
  exact absurd (hr '(' rfl) (by decide)

theorem readAlike_of_word {x : Option Expr} {w : Word} (hword : outlineSlot x = .word w) : ReadAlike x := by
  intro x' r r' hx hx' hr hr' h
  have hw := isProper_of_outlineSlot hx hword
  rw [shownSlot_eq, shownSlot_eq, hword] at h
  cases hout : outlineSlot x' with
  | word w' =>
    have hw' := isProper_of_outlineSlot hx' hout
    rw [hout] at h
    obtain ⟨htext, hrest⟩ := append_inj_of_head (Word.isWordChar_of_mem hw) (Word.isWordChar_of_mem hw')
      hr.isWordChar hr'.isWordChar h
    obtain rfl := Word.text_inj hw hw' (String.toList_inj.1 htext)
    exact ⟨by rw [slot_of_outlineSlot hword, slot_of_outlineSlot hout], hrest⟩
  | call name joint items =>
    obtain ⟨e, rfl, hcall⟩ := exists_of_outlineSlot_eq_call hout
    rw [hout] at h
    exact absurd h (word_ne_call hw hcall hr r')

theorem readAlike_of_call {e : Expr} {name : List Char} {joint : Joint} {items : List (Option Expr)}
    (hcall : e.outline = .call name joint items) (hread : ∀ x ∈ items, ReadAlike x) : ReadAlike (some e) := by
  intro x' r r' hx hx' hr hr' h
  have he := hx e rfl
  rw [shownSlot_eq, shownSlot_eq, outlineSlot, hcall] at h
  cases hout : outlineSlot x' with
  | word w' =>
    rw [hout] at h
    exact absurd h.symm (word_ne_call (isProper_of_outlineSlot hx' hout) hcall hr' r)
  | call name' joint' items' =>
    obtain ⟨e', rfl, hcall'⟩ := exists_of_outlineSlot_eq_call hout
    have he' := hx' e' rfl
    rw [hout] at h
    obtain ⟨rfl, htext⟩ := append_inj_of_head (isWordChar_of_mem_name hcall) (isWordChar_of_mem_name hcall')
      (head_open_isWordChar _) (head_open_isWordChar _) h
    obtain ⟨hitems, hr, hjoint⟩ := readAlike_separated hread (legible_items hcall he) (legible_items hcall' he')
      (List.cons.inj htext).2
    have hreduced := reduced_eq_of_parts hcall hcall' he.isProper he'.isProper hitems hjoint
    exact ⟨by rw [reducedSlot, reducedSlot, hreduced], hr⟩

mutual

/-- Every expression is read in one way. -/
theorem readAlike : ∀ e : Expr, ReadAlike (some e)
  | .constant _ | .euler | .mastery | .coreStat _ | .derivedStat _ => readAlike_of_word rfl
  | .chain op xs => by
    refine readAlike_of_call rfl (List.forall_mem_append.2 ⟨?_, readAlike_slots xs⟩)
    intro x hx
    obtain ⟨v, rfl⟩ := Operator.exists_of_mem_seed hx
    exact readAlike_of_word rfl
  | .extremum side xs => readAlike_of_call rfl (readAlike_slots xs)
  | .power a b => readAlike_of_call rfl (by simpa using ⟨readAlike_slot a, readAlike_slot b⟩)
  | .exponential a => readAlike_of_call rfl (by simpa using readAlike_slot a)
  | .logarithmic a b => readAlike_of_call rfl (by simpa using ⟨readAlike_slot a, readAlike_slot b⟩)
  | .clamp a b c => readAlike_of_call rfl (by simpa using ⟨readAlike_slot a, readAlike_slot b, readAlike_slot c⟩)

theorem readAlike_slot : ∀ x : Option Expr, ReadAlike x
  | none => readAlike_of_word rfl
  | some e => readAlike e

theorem readAlike_slots : ∀ xs : List (Option Expr), ∀ x ∈ xs, ReadAlike x
  | [] => nofun
  | x :: xs => List.forall_mem_cons.2 ⟨readAlike_slot x, readAlike_slots xs⟩

end

/-! ## Texts and reduced trees -/

mutual

/-- A text does not show for which kind of stat a name belongs to. -/
theorem shown_reduced : ∀ (e : Expr) (rest : List Char), shown (reduced e) rest = shown e rest
  | .constant _, _ | .euler, _ | .mastery, _ | .coreStat _, _ | .derivedStat _, _ => rfl
  | .chain .addition xs, rest => by rw [reduced, shown, shown, separated_reducedSlots]
  | .chain .multiplication xs, rest => by rw [reduced, shown, shown, separated_reducedSlots]
  | .chain .subtraction xs, rest => by rw [reduced, shown, shown, following_reducedSlots]
  | .chain .division xs, rest => by rw [reduced, shown, shown, following_reducedSlots]
  | .extremum side xs, rest => by rw [reduced, shown, shown, separated_reducedSlots]
  | .power a b, rest => by rw [reduced, shown, shown, shownSlot_reducedSlot a, shownSlot_reducedSlot b]
  | .exponential a, rest => by rw [reduced, shown, shown, shownSlot_reducedSlot a]
  | .logarithmic a b, rest => by rw [reduced, shown, shown, shownSlot_reducedSlot a, shownSlot_reducedSlot b]
  | .clamp a b c, rest => by
    rw [reduced, shown, shown, shownSlot_reducedSlot a, shownSlot_reducedSlot b, shownSlot_reducedSlot c]

theorem shownSlot_reducedSlot : ∀ (x : Option Expr) (rest : List Char),
    shownSlot (reducedSlot x) rest = shownSlot x rest
  | none, _ => rfl
  | some e, rest => by rw [reducedSlot, shownSlot, shownSlot, shown_reduced e]

theorem following_reducedSlots (separator : List Char) : ∀ (xs : List (Option Expr)) (rest : List Char),
    following separator (reducedSlots xs) rest = following separator xs rest
  | [], _ => rfl
  | x :: xs, rest => by
    rw [reducedSlots, following, following, following_reducedSlots separator xs, shownSlot_reducedSlot x]

theorem separated_reducedSlots (separator : List Char) : ∀ (xs : List (Option Expr)) (rest : List Char),
    separated separator (reducedSlots xs) rest = separated separator xs rest
  | [], _ => rfl
  | x :: xs, rest => by
    rw [reducedSlots, separated, separated, following_reducedSlots separator xs, shownSlot_reducedSlot x]

end

/-- **The text of an expression identifies it** up to the kinds of the stats that it looks up: legible trees are shown
alike exactly if they are the same once every look-up is reduced to its id. -/
theorem display_eq_iff {e e' : Expr} (he : e.Legible) (he' : e'.Legible) :
    e.display = e'.display ↔ e.reduced = e'.reduced := by
  constructor
  · intro h
    have hchars : shownSlot (some e) [] = shownSlot (some e') [] := String.ofList_injective h
    have hread := readAlike e (fun _ h => Option.some.inj h ▸ he) (fun _ h => Option.some.inj h ▸ he') delimited_nil
      delimited_nil hchars
    exact Option.some.inj hread.1
  · intro h
    rw [display, display, ← shown_reduced e, ← shown_reduced e', h]

def difference (e : Expr) : Expr :=
  .chain .subtraction [some e, none]

theorem Legible.difference {e : Expr} (h : e.Legible) : (difference e).Legible := by
  refine .of_slots trivial ?_
  simp only [Expr.difference, slots, List.forall_mem_cons]
  refine ⟨?_, nofun, nofun⟩
  rintro _ ⟨⟩
  exact h

/-- In a text a core stat looks like the derived stat of its name. -/
theorem display_difference_life :
    (difference (.coreStat ⟨"LIFE"⟩)).display = (difference (.derivedStat ⟨⟨"LIFE"⟩, []⟩)).display ∧
      (difference (.coreStat ⟨"LIFE"⟩)).reduced = (difference (.derivedStat ⟨⟨"LIFE"⟩, []⟩)).reduced := by
  have hlife : IsStatName "LIFE" := by decide
  have hcore : (coreStat ⟨"LIFE"⟩).Legible := .of_slots hlife nofun
  have hderived : (derivedStat ⟨⟨"LIFE"⟩, []⟩).Legible := .of_slots hlife nofun
  exact ⟨rfl, (display_eq_iff hcore.difference hderived.difference).1 rfl⟩

end Formulary.Expr
