import Formulary.Proofs.Json.Levels

/-!
# Skipping and reading

A reader that builds few levels skips what a reader that builds more levels reads, and both go on at the same place
(`skipsTo_of_readValue`). What is read as a document is therefore the value of its text, cut off at the deepest level:
`parse?_eq_cut`.
-/

namespace Formulary.Json

/-! ## Where skipping goes on -/

/-- Whether skipping a value that is still to come at one place goes on, after that value, at another. -/
def SkipsTo (s t : List Char) : Prop :=
  ∀ (steps : Nat) (brackets : List Bracket) (u : List Char), skipOpen steps true brackets s = some u →
    ∃ steps, skipOpen steps false brackets t = some u

section
variable {s t u : List Char} {bracket : Bracket} {brackets : List Bracket} {steps : Nat}

theorem exists_step_of_due (h : skipOpen steps true brackets s = some u) :
    ∃ x steps, skipDue s = some x ∧ skipOpen steps x.1 (x.2.1 ++ brackets) x.2.2 = some u := by
  cases steps with
  | zero => simp [skipOpen] at h
  | succ steps =>
    rw [skipOpen_due] at h
    obtain ⟨x, hx, h⟩ := Option.bind_eq_some_iff.1 h
    exact ⟨x, steps, hx, h⟩

theorem exists_step_of_done (h : skipOpen steps false (bracket :: brackets) s = some u) :
    ∃ x steps, skipDone bracket s = some x ∧ skipOpen steps x.1 (x.2.1 ++ brackets) x.2.2 = some u := by
  cases steps with
  | zero => simp [skipOpen] at h
  | succ steps =>
    rw [skipOpen_done] at h
    obtain ⟨x, hx, h⟩ := Option.bind_eq_some_iff.1 h
    exact ⟨x, steps, hx, h⟩

/-- A value that is skipped in one step. -/
theorem skipsTo_of_skipDue (h : skipDue s = some (false, [], t)) : SkipsTo s t := by
  intro steps brackets u hskip
  obtain ⟨x, steps, hx, hskip⟩ := exists_step_of_due hskip
  obtain rfl := Option.some.inj (h.symm.trans hx)
  exact ⟨steps, hskip⟩

/-- Where skipping goes on when nothing is open around a value, it goes on with brackets open around it. -/
theorem exists_skipOpen_of_append {due : Bool} {inner : List Bracket} {m : Nat}
    (h : skipOpen steps due inner s = some t) (houter : skipOpen m due (inner ++ brackets) s = some u) :
    ∃ m, skipOpen m false brackets t = some u := by
  induction steps generalizing due inner s m with
  | zero => simp [skipOpen] at h
  | succ steps ih =>
    cases m with
    | zero => simp [skipOpen] at houter
    | succ m =>
      cases due with
      | true =>
        rw [skipOpen_due] at h houter
        obtain ⟨x, hx, h⟩ := Option.bind_eq_some_iff.1 h
        rw [hx, Option.bind_some, ← List.append_assoc] at houter
        exact ih h houter
      | false =>
        cases inner with
        | nil =>
          obtain rfl := Option.some.inj h
          exact ⟨m + 1, houter⟩
        | cons bracket inner =>
          rw [List.cons_append, skipOpen_done] at houter
          rw [skipOpen_done] at h
          obtain ⟨x, hx, h⟩ := Option.bind_eq_some_iff.1 h
          rw [hx, Option.bind_some, ← List.append_assoc] at houter
          exact ih h houter

end

/-! ## Reading goes on where skipping does -/

section
variable {value : List Char → Option (Json × List Char)} (hvalue : ∀ {s t j}, value s = some (j, t) → SkipsTo s t)
  {brackets : List Bracket} {u : List Char}
include hvalue

theorem exists_skipOpen_of_readItems {room steps : Nat} {s t : List Char} {items : List Json}
    (h : readItems value room s = some (items, t)) (hskip : skipOpen steps true (.square :: brackets) s = some u) :
    ∃ steps, skipOpen steps false brackets t = some u := by
  induction room generalizing s t items steps with
  | zero => simp [readItems] at h
  | succ room ih =>
    rw [readItems_succ] at h
    obtain ⟨⟨item, v⟩, hitem, h⟩ := Option.bind_eq_some_iff.1 h
    obtain ⟨⟨rest, w⟩, hmore, heq⟩ := Option.map_eq_some_iff.1 h
    dsimp only at hmore heq
    obtain ⟨rfl, rfl⟩ := Prod.mk.inj heq
    obtain ⟨steps, hskip⟩ := hvalue hitem _ _ _ hskip
    obtain ⟨x, steps, hx, hskip⟩ := exists_step_of_done hskip
    unfold readMoreItems at hmore
    split at hmore
    · next t ht =>
      obtain ⟨rfl, rfl⟩ := Prod.mk.inj (Option.some.inj hmore)
      rw [skipDone, ht] at hx
      obtain rfl := Option.some.inj hx
      exact ⟨steps, hskip⟩
    · next t ht =>
      rw [skipDone, ht] at hx
      obtain rfl := Option.some.inj hx
      exact ih hmore hskip
    · exact absurd hmore (by simp)

theorem exists_skipOpen_of_readMembers {room steps : Nat} {s s' t : List Char} {members : List (Option String × Json)}
    (h : readMembers value room s = some (members, t)) (hname : Bracket.curly.skipName s = some s')
    (hskip : skipOpen steps true (.curly :: brackets) s' = some u) :
    ∃ steps, skipOpen steps false brackets t = some u := by
  induction room generalizing s s' t members steps with
  | zero => simp [readMembers] at h
  | succ room ih =>
    rw [readMembers_succ] at h
    obtain ⟨⟨name, s''⟩, hname', h⟩ := Option.bind_eq_some_iff.1 h
    obtain ⟨⟨item, v⟩, hitem, h⟩ := Option.bind_eq_some_iff.1 h
    obtain ⟨⟨rest, w⟩, hmore, heq⟩ := Option.map_eq_some_iff.1 h
    dsimp only at hitem hmore heq
    obtain ⟨rfl, rfl⟩ := Prod.mk.inj heq
    rw [Bracket.skipName, hname'] at hname
    obtain rfl := Option.some.inj hname
    obtain ⟨steps, hskip⟩ := hvalue hitem _ _ _ hskip
    obtain ⟨x, steps, hx, hskip⟩ := exists_step_of_done hskip
    unfold readMoreMembers at hmore
    split at hmore
    · next t ht =>
      obtain ⟨rfl, rfl⟩ := Prod.mk.inj (Option.some.inj hmore)
      rw [skipDone, ht] at hx
      obtain rfl := Option.some.inj hx
      exact ⟨steps, hskip⟩
    · next t ht =>
      rw [skipDone, ht] at hx
      obtain ⟨t', hnext, rfl⟩ := Option.map_eq_some_iff.1 hx
      exact ih hmore hnext hskip
    · exact absurd hmore (by simp)

end

section
variable {s : List Char}

/-- A value without parts is skipped in one step. -/
theorem skipsTo_of_readSimple {t : List Char} {j : Json} (hsquare : ∀ rest, skipBlanks s ≠ '[' :: rest)
    (hcurly : ∀ rest, skipBlanks s ≠ '\x7b' :: rest) (h : readSimple (skipBlanks s) = some (j, t)) :
    SkipsTo s t := by
  apply skipsTo_of_skipDue
  unfold skipDue
  split
  · next rest hs => exact absurd hs (hsquare rest)
  · next rest hs => exact absurd hs (hcurly rest)
  · rw [h]
    rfl

theorem skipDue_square {rest : List Char} (hs : skipBlanks s = '[' :: rest) (hv : ∀ v, skipBlanks rest ≠ ']' :: v) :
    skipDue s = some (true, [.square], skipBlanks rest) := by
  simp only [skipDue, hs]

theorem skipDue_curly {rest : List Char} (hs : skipBlanks s = '\x7b' :: rest)
    (hv : ∀ v, skipBlanks rest ≠ '\x7d' :: v) :
    skipDue s = (Bracket.curly.skipName (skipBlanks rest)).map fun t => (true, [.curly], t) := by
  simp only [skipDue, hs]

end

/-- **Skipping goes on where reading does**, however many levels are built. -/
theorem skipsTo_of_readValue (room : Nat) {depth : Nat} {s t : List Char} {j : Json}
    (h : readValue room depth s = some (j, t)) : SkipsTo s t := by
  induction depth generalizing s t j with
  | zero =>
    have hdeep (h : readTooDeep room s = some (j, t)) : SkipsTo s t := by
      obtain ⟨v, hv, heq⟩ := Option.map_eq_some_iff.1 h
      obtain ⟨-, rfl⟩ := Prod.mk.inj heq
      intro steps brackets u hskip
      exact exists_skipOpen_of_append hv hskip
    rw [readValue] at h
    split at h
    · exact hdeep h
    · exact hdeep h
    · next hsquare hcurly => exact skipsTo_of_readSimple hsquare hcurly h
  | succ depth ih =>
    rw [readValue] at h
    split at h
    · next rest hs =>
      split at h
      · next v hv =>
        obtain ⟨rfl, rfl⟩ := Prod.mk.inj (Option.some.inj h)
        apply skipsTo_of_skipDue
        simp [skipDue, hs, hv]
      · next hv =>
        obtain ⟨⟨items, v⟩, hitems, heq⟩ := Option.map_eq_some_iff.1 h
        obtain ⟨rfl, rfl⟩ := Prod.mk.inj heq
        intro steps brackets u hskip
        obtain ⟨x, steps, hx, hskip⟩ := exists_step_of_due hskip
        rw [skipDue_square hs hv] at hx
        obtain rfl := Option.some.inj hx
        exact exists_skipOpen_of_readItems ih hitems hskip
    · next rest hs =>
      split at h
      · next v hv =>
        obtain ⟨rfl, rfl⟩ := Prod.mk.inj (Option.some.inj h)
        apply skipsTo_of_skipDue
        simp [skipDue, hs, hv]
      · next hv =>
        obtain ⟨⟨members, v⟩, hmembers, heq⟩ := Option.map_eq_some_iff.1 h
        obtain ⟨rfl, rfl⟩ := Prod.mk.inj heq
        intro steps brackets u hskip
        obtain ⟨x, steps, hx, hskip⟩ := exists_step_of_due hskip
        rw [skipDue_curly hs hv] at hx
        obtain ⟨s', hname, rfl⟩ := Option.map_eq_some_iff.1 hx
        exact exists_skipOpen_of_readMembers ih hmembers hname hskip
    · next hsquare hcurly => exact skipsTo_of_readSimple hsquare hcurly h

/-! ## Fewer levels -/

section
variable {value value' : List Char → Option (Json × List Char)} {depth : Nat}
  (hvalue : ∀ {s t t' j j'}, value s = some (j, t) → value' s = some (j', t') → j = cut depth j' ∧ t = t')
include hvalue

theorem readItems_cut {room : Nat} {s t t' : List Char} {items items' : List Json}
    (h : readItems value room s = some (items, t)) (h' : readItems value' room s = some (items', t')) :
    items = cutItems depth items' ∧ t = t' := by
  induction room generalizing s t t' items items' with
  | zero => simp [readItems] at h
  | succ room ih =>
    rw [readItems_succ] at h h'
    obtain ⟨⟨item, u⟩, hitem, h⟩ := Option.bind_eq_some_iff.1 h
    obtain ⟨⟨rest, v⟩, hmore, heq⟩ := Option.map_eq_some_iff.1 h
    obtain ⟨⟨item', u'⟩, hitem', h'⟩ := Option.bind_eq_some_iff.1 h'
    obtain ⟨⟨rest', v'⟩, hmore', heq'⟩ := Option.map_eq_some_iff.1 h'
    dsimp only at hmore heq hmore' heq'
    obtain ⟨rfl, rfl⟩ := Prod.mk.inj heq
    obtain ⟨rfl, rfl⟩ := Prod.mk.inj heq'
    obtain ⟨rfl, rfl⟩ := hvalue hitem hitem'
    unfold readMoreItems at hmore hmore'
    split at hmore
    · next w hw =>
      simp only [hw] at hmore'
      obtain ⟨rfl, rfl⟩ := Prod.mk.inj (Option.some.inj hmore)
      obtain ⟨rfl, rfl⟩ := Prod.mk.inj (Option.some.inj hmore')
      exact ⟨rfl, rfl⟩
    · next w hw =>
      simp only [hw] at hmore'
      obtain ⟨rfl, rfl⟩ := ih hmore hmore'
      exact ⟨rfl, rfl⟩
    · exact absurd hmore (by simp)

theorem readMembers_cut {room : Nat} {s t t' : List Char} {members members' : List (Option String × Json)}
    (h : readMembers value room s = some (members, t)) (h' : readMembers value' room s = some (members', t')) :
    members = members'.map (fun m => (m.1, cut depth m.2)) ∧ t = t' := by
  induction room generalizing s t t' members members' with
  | zero => simp [readMembers] at h
  | succ room ih =>
    rw [readMembers_succ] at h h'
    obtain ⟨⟨name, s'⟩, hname, h⟩ := Option.bind_eq_some_iff.1 h
    obtain ⟨⟨item, u⟩, hitem, h⟩ := Option.bind_eq_some_iff.1 h
    obtain ⟨⟨rest, v⟩, hmore, heq⟩ := Option.map_eq_some_iff.1 h
    rw [hname, Option.bind_some] at h'
    obtain ⟨⟨item', u'⟩, hitem', h'⟩ := Option.bind_eq_some_iff.1 h'
    obtain ⟨⟨rest', v'⟩, hmore', heq'⟩ := Option.map_eq_some_iff.1 h'
    dsimp only at hitem hmore heq hmore' heq'
    obtain ⟨rfl, rfl⟩ := Prod.mk.inj heq
    obtain ⟨rfl, rfl⟩ := Prod.mk.inj heq'
    obtain ⟨rfl, rfl⟩ := hvalue hitem hitem'
    unfold readMoreMembers at hmore hmore'
    split at hmore
    · next w hw =>
      simp only [hw] at hmore'
      obtain ⟨rfl, rfl⟩ := Prod.mk.inj (Option.some.inj hmore)
      obtain ⟨rfl, rfl⟩ := Prod.mk.inj (Option.some.inj hmore')
      exact ⟨rfl, rfl⟩
    · next w hw =>
      simp only [hw] at hmore'
      obtain ⟨rfl, rfl⟩ := ih hmore hmore'
      exact ⟨rfl, rfl⟩
    · exact absurd hmore (by simp)

end

theorem cutMembers_eq_map (depth : Nat) (members : List (String × Json)) :
    cutMembers depth members = members.map fun m => (m.1, cut depth m.2) := by
  induction members with
  | nil => rfl
  | cons m members ih => rw [cutMembers, ih, List.map_cons]

/-- The member of an object, if it has been read with a name. -/
def named? (m : Option String × Json) : Option (String × Json) :=
  m.1.map fun name => (name, m.2)

theorem objectOf_eq_elim (members : List (Option String × Json)) :
    objectOf members = (members.mapM named?).elim .unreadable .object := by
  unfold objectOf
  split
  · next named h =>
    have hnamed : members.mapM named? = some named := h
    rw [hnamed]
    rfl
  · next h =>
    have hnamed : members.mapM named? = none := h
    rw [hnamed]
    rfl

/-- An object of members that are cut off is the object cut off one level above them. -/
theorem objectOf_cut (depth : Nat) (members : List (Option String × Json)) :
    objectOf (members.map fun m => (m.1, cut depth m.2)) = cut (depth + 1) (objectOf members) := by
  have hnamed : (members.map fun m => (m.1, cut depth m.2)).mapM named? =
      (members.mapM named?).map (cutMembers depth) := by
    induction members with
    | nil => rfl
    | cons m members ih =>
      obtain ⟨name, j⟩ := m
      rw [List.map_cons, List.mapM_cons, List.mapM_cons, ih]
      cases name with
      | none => rfl
      | some name => cases members.mapM named? <;> rfl
  rw [objectOf_eq_elim, objectOf_eq_elim, hnamed]
  cases members.mapM named? <;> rfl

/-- What is read where a bracket opens and no level is left. -/
theorem cut_zero_of_readValue {room depth : Nat} {s t : List Char} {j : Json} {c : Char} {rest : List Char}
    (hs : skipBlanks s = c :: rest) (hc : c = '[' ∨ c = '\x7b') (h : readValue room depth s = some (j, t)) :
    cut 0 j = .unreadable := by
  cases depth with
  | zero =>
    have hdeep : readTooDeep room s = some (j, t) := by rcases hc with rfl | rfl <;> simpa [readValue, hs] using h
    obtain ⟨u, -, heq⟩ := Option.map_eq_some_iff.1 hdeep
    obtain ⟨rfl, -⟩ := Prod.mk.inj heq
    rfl
  | succ depth =>
    rcases hc with rfl | rfl
    · simp only [readValue, hs] at h
      split at h
      · obtain ⟨rfl, -⟩ := Prod.mk.inj (Option.some.inj h)
        rfl
      · obtain ⟨⟨items, u⟩, -, heq⟩ := Option.map_eq_some_iff.1 h
        obtain ⟨rfl, -⟩ := Prod.mk.inj heq
        rfl
    · simp only [readValue, hs] at h
      split at h
      · obtain ⟨rfl, -⟩ := Prod.mk.inj (Option.some.inj h)
        rfl
      · obtain ⟨⟨members, u⟩, -, heq⟩ := Option.map_eq_some_iff.1 h
        obtain ⟨rfl, -⟩ := Prod.mk.inj heq
        unfold objectOf
        split <;> rfl

theorem readValue_of_simple {s : List Char} (hsquare : ∀ rest, skipBlanks s ≠ '[' :: rest)
    (hcurly : ∀ rest, skipBlanks s ≠ '\x7b' :: rest) (room depth : Nat) :
    readValue room depth s = readSimple (skipBlanks s) := by
  cases depth with
  | zero =>
    rw [readValue]
    split
    · next rest hs => exact absurd hs (hsquare rest)
    · next rest hs => exact absurd hs (hcurly rest)
    · rfl
  | succ depth =>
    rw [readValue]
    split
    · next rest hs => exact absurd hs (hsquare rest)
    · next rest hs => exact absurd hs (hcurly rest)
    · rfl

theorem readValue_cut_of_simple {room depth depth' : Nat} {s t t' : List Char} {j j' : Json}
    (hsquare : ∀ rest, skipBlanks s ≠ '[' :: rest) (hcurly : ∀ rest, skipBlanks s ≠ '\x7b' :: rest)
    (h : readSimple (skipBlanks s) = some (j, t)) (h' : readValue room depth' s = some (j', t')) :
    j = cut depth j' ∧ t = t' := by
  rw [readValue_of_simple hsquare hcurly, h] at h'
  obtain ⟨rfl, rfl⟩ := Prod.mk.inj (Option.some.inj h')
  refine ⟨(cut_of_nesting_le j ?_).symm, rfl⟩
  exact Nat.le_trans (readSimple_sound h).2 (Nat.zero_le _)

/-- **With fewer levels the same value is read**, cut off at the last of them, and reading goes on at the same place. -/
theorem readValue_cut {room depth depth' : Nat} {s t t' : List Char} {j j' : Json} (hle : depth ≤ depth')
    (h : readValue room depth s = some (j, t)) (h' : readValue room depth' s = some (j', t')) :
    j = cut depth j' ∧ t = t' := by
  induction depth generalizing depth' s t t' j j' with
  | zero =>
    have hdeep {c : Char} {rest : List Char} (hs : skipBlanks s = c :: rest) (hc : c = '[' ∨ c = '\x7b')
        (h : readTooDeep room s = some (j, t)) : j = cut 0 j' ∧ t = t' := by
      obtain ⟨u, hu, heq⟩ := Option.map_eq_some_iff.1 h
      obtain ⟨rfl, rfl⟩ := Prod.mk.inj heq
      refine ⟨(cut_zero_of_readValue hs hc h').symm, ?_⟩
      obtain ⟨steps, hsteps⟩ := skipsTo_of_readValue room h' _ _ _ hu
      cases steps with
      | zero => simp [skipOpen] at hsteps
      | succ steps => exact (Option.some.inj hsteps).symm
    rw [readValue] at h
    split at h
    · next rest hs => exact hdeep hs (.inl rfl) h
    · next rest hs => exact hdeep hs (.inr rfl) h
    · next hsquare hcurly => exact readValue_cut_of_simple hsquare hcurly h h'
  | succ depth ih =>
    obtain ⟨depth', rfl⟩ : ∃ n, depth' = n + 1 := ⟨depth' - 1, by omega⟩
    have hbelow {s t t' : List Char} {j j' : Json} (h : readValue room depth s = some (j, t))
        (h' : readValue room depth' s = some (j', t')) : j = cut depth j' ∧ t = t' :=
      ih (Nat.le_of_succ_le_succ hle) h h'
    rw [readValue] at h
    split at h
    · next rest hs =>
      simp only [readValue, hs] at h'
      split at h
      · next u hu =>
        simp only [hu] at h'
        obtain ⟨rfl, rfl⟩ := Prod.mk.inj (Option.some.inj h)
        obtain ⟨rfl, rfl⟩ := Prod.mk.inj (Option.some.inj h')
        exact ⟨rfl, rfl⟩
      · next hne =>
        split at h'
        · next u hu => exact absurd hu (hne u)
        obtain ⟨⟨items, u⟩, hitems, heq⟩ := Option.map_eq_some_iff.1 h
        obtain ⟨⟨items', u'⟩, hitems', heq'⟩ := Option.map_eq_some_iff.1 h'
        obtain ⟨rfl, rfl⟩ := Prod.mk.inj heq
        obtain ⟨rfl, rfl⟩ := Prod.mk.inj heq'
        obtain ⟨rfl, rfl⟩ := readItems_cut hbelow hitems hitems'
        exact ⟨rfl, rfl⟩
    · next rest hs =>
      simp only [readValue, hs] at h'
      split at h
      · next u hu =>
        simp only [hu] at h'
        obtain ⟨rfl, rfl⟩ := Prod.mk.inj (Option.some.inj h)
        obtain ⟨rfl, rfl⟩ := Prod.mk.inj (Option.some.inj h')
        exact ⟨rfl, rfl⟩
      · next hne =>
        split at h'
        · next u hu => exact absurd hu (hne u)
        obtain ⟨⟨members, u⟩, hmembers, heq⟩ := Option.map_eq_some_iff.1 h
        obtain ⟨⟨members', u'⟩, hmembers', heq'⟩ := Option.map_eq_some_iff.1 h'
        obtain ⟨rfl, rfl⟩ := Prod.mk.inj heq
        obtain ⟨rfl, rfl⟩ := Prod.mk.inj heq'
        obtain ⟨rfl, rfl⟩ := readMembers_cut hbelow hmembers hmembers'
        exact ⟨objectOf_cut .., rfl⟩
    · next hsquare hcurly => exact readValue_cut_of_simple hsquare hcurly h h'

/-- **A document is read as the value of its text**, cut off at the deepest level. -/
theorem parse?_eq_cut {s : String} {j k : Json} (hs : value? s = some j) (h : parse? s = some k) :
    k = cut deepest j := by
  have hdeep := (parse?_sound h).2
  by_cases hdepth : bracketDepth s ≤ deepest
  · rw [parse?_eq_value? hdepth, hs] at h
    obtain rfl := Option.some.inj h
    exact (cut_of_nesting_le j hdeep).symm
  · obtain ⟨rest, hread, -⟩ := parseWithin?_eq_some_iff.1 h
    obtain ⟨rest', hread', -⟩ := parseWithin?_eq_some_iff.1 hs
    exact (readValue_cut (by omega) hread hread').1

end Formulary.Json
