import Formulary.Proofs.Json.Basic
import Formulary.Proofs.Json.Layout

/-!
# Values read back from their text

The reader builds the outermost levels of what was written and skips what is deeper, so what it reads
is the value cut off at that depth: `readValue_chars`. If the value is not nested deeper than that it
is read back whole (`cut_of_nesting_le`); otherwise something unreadable is left in its place
(`readable_cut`). What is skipped is spelled by the rules too: skipping takes a known number of steps
(`skips`), which the text has room for.
-/

namespace Formulary.Json

/-! ## Values cut off at a depth -/

mutual

/-- The value with only its outermost `depth` levels of arrays and objects. -/
def cut (depth : Nat) : Json → Json
  | .array items =>
    match depth with
    | 0 => .unreadable
    | depth + 1 => .array (cutItems depth items)
  | .object members =>
    match depth with
    | 0 => .unreadable
    | depth + 1 => .object (cutMembers depth members)
  | j => j

def cutItems (depth : Nat) : List Json → List Json
  | [] => []
  | item :: items => cut depth item :: cutItems depth items

def cutMembers (depth : Nat) : List (String × Json) → List (String × Json)
  | [] => []
  | (name, item) :: members => (name, cut depth item) :: cutMembers depth members

end

mutual

/-- The steps it takes to skip a value. -/
def skips : Json → Nat
  | .array [] => 1
  | .object [] => 1
  | .array (item :: items) => skips item + (skipsItems items + 2)
  | .object ((_, item) :: members) => skips item + (skipsMembers members + 2)
  | _ => 1

def skipsItems : List Json → Nat
  | [] => 0
  | item :: items => skips item + skipsItems items + 1

def skipsMembers : List (String × Json) → Nat
  | [] => 0
  | (_, item) :: members => skips item + skipsMembers members + 1

end

/-! ## Skipping -/

mutual

/-- A written value has a character for every step of skipping it. -/
theorem skips_add_length_le (l : Layout) : ∀ (j : Json) (level : Nat) (rest : List Char), Restorable j →
    skips j + rest.length ≤ (chars l level j rest).length
  | .null, _, _, _ => by simp [skips, chars]; omega
  | .bool true, _, _, _ => by simp [skips, chars]; omega
  | .bool false, _, _, _ => by simp [skips, chars]; omega
  | .whole n, _, _, _ => by
    have := Nat.length_toDigits_pos (b := 10) (n := n.natAbs)
    simp [skips, chars, wholeChars]
    omega
  | .real x, _, _, hj => by
    have hx : ReadsBack x := by simpa only [Restorable] using hj
    have hne : Style.document.finiteChars x ≠ [] := by
      intro hnil
      rw [ReadsBack, hnil] at hx
      simp [readNumber, readIntegerPart, readDigits] at hx
    have := List.length_pos_iff.2 hne
    simp [skips, chars]
    omega
  | .text s, _, _, _ => by simp [skips, chars, quote]; omega
  | .array [], _, _, _ => by simp [skips, chars]; omega
  | .array (item :: items), level, rest, hj => by
    obtain ⟨hitem, hitems⟩ : Restorable item ∧ RestorableItems items := by
      simpa only [Restorable, RestorableItems] using hj
    have h1 := skips_add_length_le l item (level + 1)
      (itemsChars l (level + 1) items (l.lineStart level ++ ']' :: rest)) hitem
    have h2 := skipsItems_add_length_le l items (level + 1) (l.lineStart level ++ ']' :: rest) hitems
    simp only [skips, chars, List.length_cons, List.length_append] at h1 h2 ⊢
    omega
  | .object [], _, _, _ => by simp [skips, chars]; omega
  | .object ((name, item) :: members), level, rest, hj => by
    obtain ⟨hitem, hmembers⟩ : Restorable item ∧ RestorableMembers members := by
      simpa only [Restorable, RestorableMembers] using hj
    have h1 := skips_add_length_le l item (level + 1)
      (membersChars l (level + 1) members (l.lineStart level ++ '\x7d' :: rest)) hitem
    have h2 := skipsMembers_add_length_le l members (level + 1) (l.lineStart level ++ '\x7d' :: rest)
      hmembers
    simp only [skips, chars, List.length_cons, List.length_append] at h1 h2 ⊢
    omega
  | .unreadable, _, _, hj => by simp [Restorable] at hj

theorem skipsItems_add_length_le (l : Layout) : ∀ (items : List Json) (level : Nat) (rest : List Char),
    RestorableItems items → skipsItems items + rest.length ≤ (itemsChars l level items rest).length
  | [], _, _, _ => by simp [skipsItems, itemsChars]
  | item :: items, level, rest, hj => by
    obtain ⟨hitem, hitems⟩ : Restorable item ∧ RestorableItems items := by
      simpa only [RestorableItems] using hj
    have h1 := skips_add_length_le l item level (itemsChars l level items rest) hitem
    have h2 := skipsItems_add_length_le l items level rest hitems
    simp only [skipsItems, itemsChars, List.length_cons, List.length_append]
    omega

theorem skipsMembers_add_length_le (l : Layout) :
    ∀ (members : List (String × Json)) (level : Nat) (rest : List Char), RestorableMembers members →
      skipsMembers members + rest.length ≤ (membersChars l level members rest).length
  | [], _, _, _ => by simp [skipsMembers, membersChars]
  | (name, item) :: members, level, rest, hj => by
    obtain ⟨hitem, hmembers⟩ : Restorable item ∧ RestorableMembers members := by
      simpa only [RestorableMembers] using hj
    have h1 := skips_add_length_le l item level (membersChars l level members rest) hitem
    have h2 := skipsMembers_add_length_le l members level rest hmembers
    simp only [skipsMembers, membersChars, List.length_cons, List.length_append]
    omega

end

theorem skipOpen_simple {s t : List Char} {j : Json} (hs : StartsSimple s)
    (h : readSimple s = some (j, t)) (steps : Nat) (brackets : List Bracket) :
    skipOpen (steps + 1) true brackets s = skipOpen steps false brackets t := by
  obtain ⟨c, u, rfl, hc, hsquare, -, hcurly, -⟩ := hs
  rw [skipOpen, skipBlanks_cons hc]
  split
  · next heq => exact absurd (List.cons.inj heq).1 hsquare
  · next heq => exact absurd (List.cons.inj heq).1 hcurly
  · rw [h]

theorem skips_of_isSimple {j : Json} (h : j.isSimple = true) : skips j = 1 := by
  cases j with
  | array items => simp [isSimple] at h
  | object members => simp [isSimple] at h
  | _ => simp [skips]

theorem skipOpen_chars_simple (l : Layout) (level : Nat) {j : Json} {rest : List Char}
    (hs : j.isSimple = true) (hj : Restorable j) (hr : EndsNumber rest) (steps : Nat)
    (brackets : List Bracket) :
    skipOpen (skips j + steps) true brackets (chars l level j rest) =
      skipOpen steps false brackets rest := by
  obtain ⟨hread, hstart⟩ := readSimple_chars l level hs hj hr
  rw [skips_of_isSimple hs, Nat.add_comm, skipOpen_simple hstart hread]

theorem skipOpen_square {s : List Char} (hs : StartsValue (skipBlanks s)) (steps : Nat)
    (brackets : List Bracket) :
    skipOpen (steps + 1) true brackets ('[' :: s) = skipOpen steps true (.square :: brackets) s := by
  have hopen : isBlank '[' = false := rfl
  rw [skipOpen, skipBlanks_cons hopen]
  obtain ⟨c, t, hct, -, hclose, -⟩ := hs
  simp only [hct]
  split
  · next heq => exact absurd (List.cons.inj heq).1 hclose
  · exact skipOpen_congr (by rw [← hct, skipBlanks_skipBlanks]) steps _

theorem skipOpen_close (l : Layout) (level steps : Nat) (bracket : Bracket) (brackets : List Bracket)
    (rest : List Char) :
    skipOpen (steps + 1) false (bracket :: brackets) (l.lineStart level ++ bracket.close :: rest) =
      skipOpen steps false brackets rest := by
  have hclose : isBlank bracket.close = false := by cases bracket <;> rfl
  rw [skipOpen, skipBlanks_lineStart, skipBlanks_cons hclose]
  cases bracket <;> rfl

theorem skipOpen_comma_square (l : Layout) (level steps : Nat) (brackets : List Bracket)
    (s : List Char) :
    skipOpen (steps + 1) false (.square :: brackets) (',' :: (l.lineStart level ++ s)) =
      skipOpen steps true (.square :: brackets) s := by
  have hcomma : isBlank ',' = false := rfl
  rw [skipOpen, skipBlanks_cons hcomma]
  exact skipOpen_congr (skipBlanks_lineStart l level s) steps _

theorem skipName_congr {s t : List Char} (h : skipBlanks s = skipBlanks t) :
    Bracket.curly.skipName s = Bracket.curly.skipName t := by
  rw [Bracket.skipName, Bracket.skipName, readName_congr h]

theorem skipOpen_name (l : Layout) (level steps : Nat) (brackets : List Bracket) (name : String)
    (s : List Char) :
    (match Bracket.curly.skipName (l.lineStart level ++ quote name ++ l.colon ++ s) with
      | some rest => skipOpen steps true (.curly :: brackets) rest
      | none => none) = skipOpen steps true (.curly :: brackets) s := by
  obtain ⟨t, hname, ht⟩ := readName_quote l level name s
  rw [Bracket.skipName, hname]
  exact skipOpen_congr ht steps _

theorem skipOpen_curly (l : Layout) (level steps : Nat) (brackets : List Bracket) (name : String)
    (s : List Char) :
    skipOpen (steps + 1) true brackets ('\x7b' :: (l.lineStart level ++ quote name ++ l.colon ++ s)) =
      skipOpen steps true (.curly :: brackets) s := by
  have hopen : isBlank '\x7b' = false := rfl
  have hquote : skipBlanks (l.lineStart level ++ quote name ++ l.colon ++ s) =
      '"' :: (name.toList.flatMap escapeChar ++ '"' :: (l.colon ++ s)) := by
    rw [List.append_assoc, List.append_assoc, skipBlanks_lineStart, quote_append]
    rfl
  rw [← skipOpen_name l level steps brackets name s, skipOpen, skipBlanks_cons hopen]
  have hname := skipName_congr (skipBlanks_skipBlanks (l.lineStart level ++ quote name ++ l.colon ++ s))
  rw [hquote] at hname
  simp only [hquote]
  rw [← hname]
  rfl

theorem skipOpen_comma_curly (l : Layout) (level steps : Nat) (brackets : List Bracket)
    (name : String) (s : List Char) :
    skipOpen (steps + 1) false (.curly :: brackets)
      (',' :: (l.lineStart level ++ quote name ++ l.colon ++ s)) =
      skipOpen steps true (.curly :: brackets) s := by
  have hcomma : isBlank ',' = false := rfl
  rw [← skipOpen_name l level steps brackets name s, skipOpen, skipBlanks_cons hcomma]
  rfl

mutual

/-- **What is written is skipped as a whole**, whichever brackets are open around it. -/
theorem skipOpen_chars (l : Layout) : ∀ (j : Json) (level steps : Nat) (brackets : List Bracket)
    (rest : List Char), Restorable j → EndsNumber rest →
      skipOpen (skips j + steps) true brackets (chars l level j rest) = skipOpen steps false brackets rest
  | .array [], level, steps, brackets, rest, _, _ => by
    rw [chars, skips, Nat.add_comm]
    rfl
  | .array (item :: items), level, steps, brackets, rest, hj, hr => by
    obtain ⟨hitem, hitems⟩ : Restorable item ∧ RestorableItems items := by
      simpa only [Restorable, RestorableItems] using hj
    have hends := endsNumber_itemsChars l (level + 1) level items rest
    have hstart := startsValue_chars l (level + 1) hitem hends
    have hcount : skips (.array (item :: items)) + steps =
        skips item + (skipsItems items + (steps + 1)) + 1 := by
      simp only [skips]
      omega
    rw [chars, hcount, skipOpen_square (by rwa [skipBlanks_lineStart, hstart.skipBlanks_eq]),
      skipOpen_congr (skipBlanks_lineStart l (level + 1) _),
      skipOpen_chars l item (level + 1) _ _ _ hitem hends,
      skipOpen_itemsChars l items (level + 1) level steps brackets rest hitems]
  | .object [], level, steps, brackets, rest, _, _ => by
    rw [chars, skips, Nat.add_comm]
    rfl
  | .object ((name, item) :: members), level, steps, brackets, rest, hj, hr => by
    obtain ⟨hitem, hmembers⟩ : Restorable item ∧ RestorableMembers members := by
      simpa only [Restorable, RestorableMembers] using hj
    have hends := endsNumber_membersChars l (level + 1) level members rest
    have hcount : skips (.object ((name, item) :: members)) + steps =
        skips item + (skipsMembers members + (steps + 1)) + 1 := by
      simp only [skips]
      omega
    rw [chars, hcount, skipOpen_curly,
      skipOpen_chars l item (level + 1) _ _ _ hitem hends,
      skipOpen_membersChars l members (level + 1) level steps brackets rest hmembers]
  | .null, level, steps, brackets, rest, hj, hr => skipOpen_chars_simple l level rfl hj hr steps brackets
  | .bool _, level, steps, brackets, rest, hj, hr => skipOpen_chars_simple l level rfl hj hr steps brackets
  | .whole _, level, steps, brackets, rest, hj, hr => skipOpen_chars_simple l level rfl hj hr steps brackets
  | .real _, level, steps, brackets, rest, hj, hr => skipOpen_chars_simple l level rfl hj hr steps brackets
  | .text _, level, steps, brackets, rest, hj, hr => skipOpen_chars_simple l level rfl hj hr steps brackets
  | .unreadable, _, _, _, _, hj, _ => by simp [Restorable] at hj

theorem skipOpen_itemsChars (l : Layout) : ∀ (items : List Json) (level level' steps : Nat)
    (brackets : List Bracket) (rest : List Char), RestorableItems items →
      skipOpen (skipsItems items + (steps + 1)) false (.square :: brackets)
        (itemsChars l level items (l.lineStart level' ++ ']' :: rest)) = skipOpen steps false brackets rest
  | [], level, level', steps, brackets, rest, _ => by
    rw [itemsChars, skipsItems, Nat.zero_add]
    exact skipOpen_close l level' steps .square brackets rest
  | item :: items, level, level', steps, brackets, rest, hj => by
    obtain ⟨hitem, hitems⟩ : Restorable item ∧ RestorableItems items := by
      simpa only [RestorableItems] using hj
    have hends := endsNumber_itemsChars l level level' items rest
    have hcount : skipsItems (item :: items) + (steps + 1) =
        skips item + (skipsItems items + (steps + 1)) + 1 := by
      simp only [skipsItems]
      omega
    rw [itemsChars, hcount, skipOpen_comma_square,
      skipOpen_chars l item level _ _ _ hitem hends,
      skipOpen_itemsChars l items level level' steps brackets rest hitems]

theorem skipOpen_membersChars (l : Layout) : ∀ (members : List (String × Json))
    (level level' steps : Nat) (brackets : List Bracket) (rest : List Char), RestorableMembers members →
      skipOpen (skipsMembers members + (steps + 1)) false (.curly :: brackets)
        (membersChars l level members (l.lineStart level' ++ '\x7d' :: rest)) =
        skipOpen steps false brackets rest
  | [], level, level', steps, brackets, rest, _ => by
    rw [membersChars, skipsMembers, Nat.zero_add]
    exact skipOpen_close l level' steps .curly brackets rest
  | (name, item) :: members, level, level', steps, brackets, rest, hj => by
    obtain ⟨hitem, hmembers⟩ : Restorable item ∧ RestorableMembers members := by
      simpa only [RestorableMembers] using hj
    have hends := endsNumber_membersChars l level level' members rest
    have hcount : skipsMembers ((name, item) :: members) + (steps + 1) =
        skips item + (skipsMembers members + (steps + 1)) + 1 := by
      simp only [skipsMembers]
      omega
    rw [membersChars, hcount, skipOpen_comma_curly,
      skipOpen_chars l item level _ _ _ hitem hends,
      skipOpen_membersChars l members level level' steps brackets rest hmembers]

end

/-! ## Reading -/

section
variable (value : List Char → Option (Json × List Char))

/-- The items of an array after an item that has been read. -/
def readMoreItems (room : Nat) (input : List Char) : Option (List Json × List Char) :=
  match skipBlanks input with
  | ']' :: rest => some ([], rest)
  | ',' :: rest => readItems value room rest
  | _ => none

/-- The members of an object after a member that has been read. -/
def readMoreMembers (room : Nat) (input : List Char) :
    Option (List (Option String × Json) × List Char) :=
  match skipBlanks input with
  | '\x7d' :: rest => some ([], rest)
  | ',' :: rest => readMembers value room rest
  | _ => none

theorem readItems_succ (room : Nat) (input : List Char) : readItems value (room + 1) input =
    (value input).bind fun x => (readMoreItems value room x.2).map fun y => (x.1 :: y.1, y.2) := by
  rw [readItems]
  cases value input with
  | none => rfl
  | some x =>
    simp only [Option.bind_eq_bind, Option.bind_some, readMoreItems]
    generalize skipBlanks x.2 = more
    split
    · rfl
    · simp [Option.map_eq_bind]
    · simp [*]

theorem readMembers_succ (room : Nat) (input : List Char) : readMembers value (room + 1) input =
    (readName input).bind fun n => (value n.2).bind fun x =>
      (readMoreMembers value room x.2).map fun y => ((n.1, x.1) :: y.1, y.2) := by
  rw [readMembers]
  cases readName input with
  | none => rfl
  | some n =>
    simp only [Option.bind_eq_bind, Option.bind_some]
    cases value n.2 with
    | none => rfl
    | some x =>
      simp only [Option.bind_some, readMoreMembers]
      generalize skipBlanks x.2 = more
      split
      · rfl
      · simp [Option.map_eq_bind]
      · simp [*]

end

theorem readValue_simple {s : List Char} (hs : StartsSimple s) (room depth : Nat) :
    readValue room depth s = readSimple s := by
  obtain ⟨c, t, rfl, hc, hsquare, -, hcurly, -⟩ := hs
  cases depth with
  | zero =>
    rw [readValue, skipBlanks_cons hc]
    split
    · next heq => exact absurd (List.cons.inj heq).1 hsquare
    · next heq => exact absurd (List.cons.inj heq).1 hcurly
    · rfl
  | succ depth =>
    rw [readValue, skipBlanks_cons hc]
    split
    · next heq => exact absurd (List.cons.inj heq).1 hsquare
    · next heq => exact absurd (List.cons.inj heq).1 hcurly
    · rfl

theorem readTooDeep_chars (l : Layout) (level room : Nat) {j : Json} {rest : List Char}
    (hj : Restorable j) (hr : EndsNumber rest) (hroom : (chars l level j rest).length ≤ room) :
    readTooDeep room (chars l level j rest) = some (.unreadable, rest) := by
  have hsteps := skips_add_length_le l j level rest hj
  obtain ⟨m, hm⟩ : ∃ m, room + 1 = skips j + (m + 1) := ⟨room - skips j, by omega⟩
  rw [readTooDeep, hm, skipOpen_chars l j level (m + 1) [] rest hj hr, skipOpen]
  rfl

theorem readValue_square {s : List Char} (hs : StartsValue (skipBlanks s)) (room depth : Nat) :
    readValue room (depth + 1) ('[' :: s) =
      (readItems (readValue room depth) room (skipBlanks s)).map fun x => (.array x.1, x.2) := by
  have hopen : isBlank '[' = false := rfl
  rw [readValue, skipBlanks_cons hopen]
  obtain ⟨c, t, hct, -, hclose, -⟩ := hs
  simp only [hct]
  split
  · next heq => exact absurd (List.cons.inj heq).1 hclose
  · rfl

theorem readValue_curly {s t : List Char} (hs : skipBlanks s = '"' :: t) (room depth : Nat) :
    readValue room (depth + 1) ('\x7b' :: s) =
      (readMembers (readValue room depth) room (skipBlanks s)).map fun x => (objectOf x.1, x.2) := by
  have hopen : isBlank '\x7b' = false := rfl
  rw [readValue, skipBlanks_cons hopen]
  simp only [hs]
  rfl

theorem readValue_chars_simple (l : Layout) (level : Nat) {j : Json} {rest : List Char}
    (hs : j.isSimple = true) (hj : Restorable j) (hr : EndsNumber rest) (room depth : Nat) :
    readValue room depth (chars l level j rest) = some (cut depth j, rest) := by
  obtain ⟨hread, hstart⟩ := readSimple_chars l level hs hj hr
  rw [readValue_simple hstart, hread]
  cases j with
  | array items => simp [isSimple] at hs
  | object members => simp [isSimple] at hs
  | _ => simp [cut]

theorem readMembers_congr {s t : List Char} (h : skipBlanks s = skipBlanks t)
    (value : List Char → Option (Json × List Char)) (room : Nat) :
    readMembers value room s = readMembers value room t := by
  cases room with
  | zero => rfl
  | succ room => rw [readMembers_succ, readMembers_succ, readName_congr h]

theorem readMembers_quote (l : Layout) (level n room depth : Nat) (name : String) (s : List Char) :
    readMembers (readValue room depth) (n + 1) (l.lineStart level ++ quote name ++ l.colon ++ s) =
      (readValue room depth s).bind fun x => (readMoreMembers (readValue room depth) n x.2).map fun y =>
        ((some name, x.1) :: y.1, y.2) := by
  obtain ⟨t, hname, ht⟩ := readName_quote l level name s
  rw [readMembers_succ, hname, Option.bind_some]
  simp only [readValue_congr ht]

/-- Members that have all been read with a name make an object. -/
theorem objectOf_some (members : List (String × Json)) :
    objectOf (members.map fun m => (some m.1, m.2)) = .object members := by
  have h : (members.map fun m => (some m.1, m.2)).mapM
      (fun m : Option String × Json => m.1.map fun name => (name, m.2)) = some members := by
    induction members with
    | nil => rfl
    | cons m members ih => simp [List.mapM_cons, ih]
  unfold objectOf
  rw [h]

mutual

/-- **What is read from a written value** is the value cut off at the depth that is built, whatever
follows it. -/
theorem readValue_chars (l : Layout) (room : Nat) : ∀ (j : Json) (depth level : Nat) (rest : List Char),
    Restorable j → EndsNumber rest → (chars l level j rest).length ≤ room →
      readValue room depth (chars l level j rest) = some (cut depth j, rest)
  | .array items, 0, level, rest, hj, hr, hroom => by
    have hdeep := readTooDeep_chars l level room hj hr hroom
    cases items <;> rw [chars] at hdeep ⊢ <;> rw [cut] <;> exact hdeep
  | .object members, 0, level, rest, hj, hr, hroom => by
    have hdeep := readTooDeep_chars l level room hj hr hroom
    cases members <;> rw [chars] at hdeep ⊢ <;> rw [cut] <;> exact hdeep
  | .array [], depth + 1, level, rest, _, _, _ => by
    rw [chars, cut]
    rfl
  | .object [], depth + 1, level, rest, _, _, _ => by
    rw [chars, cut]
    rfl
  | .array (item :: items), depth + 1, level, rest, hj, hr, hroom => by
    obtain ⟨hitem, hitems⟩ : Restorable item ∧ RestorableItems items := by
      simpa only [Restorable, RestorableItems] using hj
    have hends := endsNumber_itemsChars l (level + 1) level items rest
    have hstart := startsValue_chars l (level + 1) hitem hends
    have hskip := (skipBlanks_lineStart l (level + 1) _).trans hstart.skipBlanks_eq
    have hlength := skips_add_length_le l item (level + 1)
      (itemsChars l (level + 1) items (l.lineStart level ++ ']' :: rest)) hitem
    simp only [chars, List.length_cons, List.length_append] at hroom
    obtain ⟨n, rfl⟩ : ∃ n, room = n + 1 := ⟨room - 1, by omega⟩
    rw [chars, readValue_square (by rwa [hskip]), hskip, readItems_succ,
      readValue_chars l (n + 1) item depth (level + 1) _ hitem hends (by omega), Option.bind_some,
      readMoreItems_chars l (n + 1) items depth (level + 1) level n rest hitems (by omega) (by omega)]
    rw [cut, cutItems]
    rfl
  | .object ((name, item) :: members), depth + 1, level, rest, hj, hr, hroom => by
    obtain ⟨hitem, hmembers⟩ : Restorable item ∧ RestorableMembers members := by
      simpa only [Restorable, RestorableMembers] using hj
    have hends := endsNumber_membersChars l (level + 1) level members rest
    obtain ⟨t, hquote⟩ := skipBlanks_quote l (level + 1) name (chars l (level + 1) item
      (membersChars l (level + 1) members (l.lineStart level ++ '\x7d' :: rest)))
    have hlength := skips_add_length_le l item (level + 1)
      (membersChars l (level + 1) members (l.lineStart level ++ '\x7d' :: rest)) hitem
    simp only [chars, List.length_cons, List.length_append] at hroom
    obtain ⟨n, rfl⟩ : ∃ n, room = n + 1 := ⟨room - 1, by omega⟩
    rw [chars, readValue_curly hquote, readMembers_congr (skipBlanks_skipBlanks _), readMembers_quote,
      readValue_chars l (n + 1) item depth (level + 1) _ hitem hends (by omega), Option.bind_some,
      readMoreMembers_chars l (n + 1) members depth (level + 1) level n rest hmembers (by omega) (by omega),
      cut, ← objectOf_some, cutMembers]
    rfl
  | .null, depth, level, rest, hj, hr, _ => readValue_chars_simple l level rfl hj hr room depth
  | .bool _, depth, level, rest, hj, hr, _ => readValue_chars_simple l level rfl hj hr room depth
  | .whole _, depth, level, rest, hj, hr, _ => readValue_chars_simple l level rfl hj hr room depth
  | .real _, depth, level, rest, hj, hr, _ => readValue_chars_simple l level rfl hj hr room depth
  | .text _, depth, level, rest, hj, hr, _ => readValue_chars_simple l level rfl hj hr room depth
  | .unreadable, _, _, _, hj, _, _ => by simp [Restorable] at hj

theorem readMoreItems_chars (l : Layout) (room : Nat) : ∀ (items : List Json)
    (depth level level' n : Nat) (rest : List Char), RestorableItems items →
      (itemsChars l level items (l.lineStart level' ++ ']' :: rest)).length ≤ n → n ≤ room →
      readMoreItems (readValue room depth) n (itemsChars l level items (l.lineStart level' ++ ']' :: rest)) =
        some (cutItems depth items, rest)
  | [], depth, level, level', n, rest, _, _, _ => by
    have hclose : isBlank ']' = false := rfl
    rw [itemsChars, readMoreItems, skipBlanks_lineStart, skipBlanks_cons hclose, cutItems]
    rfl
  | item :: items, depth, level, level', n, rest, hj, hn, hroom => by
    obtain ⟨hitem, hitems⟩ : Restorable item ∧ RestorableItems items := by
      simpa only [RestorableItems] using hj
    have hcomma : isBlank ',' = false := rfl
    have hends := endsNumber_itemsChars l level level' items rest
    have hlength := skips_add_length_le l item level
      (itemsChars l level items (l.lineStart level' ++ ']' :: rest)) hitem
    simp only [itemsChars, List.length_cons, List.length_append] at hn
    obtain ⟨n, rfl⟩ : ∃ m, n = m + 1 := ⟨n - 1, by omega⟩
    rw [itemsChars, readMoreItems, skipBlanks_cons hcomma]
    simp only [readItems_succ]
    rw [readValue_congr (skipBlanks_lineStart l level _),
      readValue_chars l room item depth level _ hitem hends (by omega), Option.bind_some,
      readMoreItems_chars l room items depth level level' n rest hitems (by omega) (by omega), cutItems]
    rfl

theorem readMoreMembers_chars (l : Layout) (room : Nat) : ∀ (members : List (String × Json))
    (depth level level' n : Nat) (rest : List Char), RestorableMembers members →
      (membersChars l level members (l.lineStart level' ++ '\x7d' :: rest)).length ≤ n → n ≤ room →
      readMoreMembers (readValue room depth) n
          (membersChars l level members (l.lineStart level' ++ '\x7d' :: rest)) =
        some ((cutMembers depth members).map fun m => (some m.1, m.2), rest)
  | [], depth, level, level', n, rest, _, _, _ => by
    have hclose : isBlank '\x7d' = false := rfl
    rw [membersChars, readMoreMembers, skipBlanks_lineStart, skipBlanks_cons hclose, cutMembers]
    rfl
  | (name, item) :: members, depth, level, level', n, rest, hj, hn, hroom => by
    obtain ⟨hitem, hmembers⟩ : Restorable item ∧ RestorableMembers members := by
      simpa only [RestorableMembers] using hj
    have hcomma : isBlank ',' = false := rfl
    have hends := endsNumber_membersChars l level level' members rest
    have hlength := skips_add_length_le l item level
      (membersChars l level members (l.lineStart level' ++ '\x7d' :: rest)) hitem
    simp only [membersChars, List.length_cons, List.length_append] at hn
    obtain ⟨n, rfl⟩ : ∃ m, n = m + 1 := ⟨n - 1, by omega⟩
    rw [membersChars, readMoreMembers, skipBlanks_cons hcomma]
    simp only [readMembers_quote]
    rw [readValue_chars l room item depth level _ hitem hends (by omega), Option.bind_some,
      readMoreMembers_chars l room members depth level level' n rest hmembers (by omega) (by omega),
      cutMembers]
    rfl

end

/-- What a text holds that a value was written as, with `depth` levels built. -/
theorem parseWithin?_render (l : Layout) {j : Json} (hj : Restorable j) (depth : Nat) :
    parseWithin? depth (j.render l) = some (cut depth j) := by
  have hread := readValue_chars l (j.render l).length j depth 0 [] hj endsNumber_nil
    (by simp [render])
  have hchars : (j.render l).toList = chars l 0 j [] := by simp [render]
  rw [parseWithin?, hchars, hread]
  rfl

/-! ## Cutting off -/

mutual

/-- A value that is not too deep stays whole. -/
theorem cut_of_nesting_le : ∀ (j : Json) {depth : Nat}, nesting j ≤ depth → cut depth j = j
  | .array items, 0, h => by simp [nesting] at h
  | .object members, 0, h => by simp [nesting] at h
  | .array items, depth + 1, h => by
    rw [nesting] at h
    simp only [cut, cutItems_of_nesting_le items (show nestingItems items ≤ depth by omega)]
  | .object members, depth + 1, h => by
    rw [nesting] at h
    simp only [cut, cutMembers_of_nesting_le members (show nestingMembers members ≤ depth by omega)]
  | .null, _, _ => rfl
  | .bool _, _, _ => rfl
  | .whole _, _, _ => rfl
  | .real _, _, _ => rfl
  | .text _, _, _ => rfl
  | .unreadable, _, _ => rfl

theorem cutItems_of_nesting_le : ∀ (items : List Json) {depth : Nat}, nestingItems items ≤ depth →
    cutItems depth items = items
  | [], _, _ => rfl
  | item :: items, depth, h => by
    rw [nestingItems] at h
    rw [cutItems, cut_of_nesting_le item (by omega), cutItems_of_nesting_le items (by omega)]

theorem cutMembers_of_nesting_le : ∀ (members : List (String × Json)) {depth : Nat},
    nestingMembers members ≤ depth → cutMembers depth members = members
  | [], _, _ => rfl
  | (name, item) :: members, depth, h => by
    rw [nestingMembers] at h
    rw [cutMembers, cut_of_nesting_le item (by omega), cutMembers_of_nesting_le members (by omega)]

end

/-- A written value that is not too deep is read back. -/
theorem parse?_render (l : Layout) {j : Json} (hj : Restorable j) (h : nesting j ≤ deepest) :
    parse? (j.render l) = some j := by
  rw [parse?, parseWithin?_render l hj, cut_of_nesting_le j h]

mutual

/-- A value that is too deep leaves something unreadable behind. -/
theorem readable_cut : ∀ (j : Json) {depth : Nat}, depth < nesting j → readable (cut depth j) = false
  | .array items, 0, _ => rfl
  | .object members, 0, _ => rfl
  | .array items, depth + 1, h => by
    rw [nesting] at h
    simp only [cut, readable, readableItems_cutItems items (show depth < nestingItems items by omega)]
  | .object members, depth + 1, h => by
    rw [nesting] at h
    simp only [cut, readable,
      readableMembers_cutMembers members (show depth < nestingMembers members by omega)]
  | .null, _, h => by simp [nesting] at h
  | .bool _, _, h => by simp [nesting] at h
  | .whole _, _, h => by simp [nesting] at h
  | .real _, _, h => by simp [nesting] at h
  | .text _, _, h => by simp [nesting] at h
  | .unreadable, _, h => by simp [nesting] at h

theorem readableItems_cutItems : ∀ (items : List Json) {depth : Nat}, depth < nestingItems items →
    readableItems (cutItems depth items) = false
  | [], _, h => by simp [nestingItems] at h
  | item :: items, depth, h => by
    rw [nestingItems] at h
    rw [cutItems, readableItems]
    by_cases hitem : depth < nesting item
    · rw [readable_cut item hitem, Bool.false_and]
    · rw [readableItems_cutItems items (by omega), Bool.and_false]

theorem readableMembers_cutMembers : ∀ (members : List (String × Json)) {depth : Nat},
    depth < nestingMembers members → readableMembers (cutMembers depth members) = false
  | [], _, h => by simp [nestingMembers] at h
  | (name, item) :: members, depth, h => by
    rw [nestingMembers] at h
    rw [cutMembers, readableMembers]
    by_cases hitem : depth < nesting item
    · rw [readable_cut item hitem, Bool.false_and]
    · rw [readableMembers_cutMembers members (by omega), Bool.and_false]

end

theorem cutItems_eq_map (depth : Nat) (items : List Json) : cutItems depth items = items.map (cut depth) := by
  induction items with
  | nil => rfl
  | cons item items ih => rw [cutItems, ih, List.map_cons]

end Formulary.Json
