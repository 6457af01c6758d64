import Formulary.Proofs.Json.Number
import Formulary.Proofs.Json.Quoted

/-!
# How written text begins and ends

The writer puts blanks between the parts of a value and commas and brackets after them. Blanks change nothing
(`readValue_congr`, `skipOpen_congr`), a value begins with a character of its own (`startsValue_chars`), and no number
runs on into what is written after it (`endsNumber_itemsChars`).
-/

namespace Formulary.Json

/-! ## Blanks -/

theorem skipBlanks_cons {c : Char} (h : isBlank c = false) (s : List Char) : skipBlanks (c :: s) = c :: s := by
  simp [skipBlanks, h]

theorem skipBlanks_skipBlanks (s : List Char) : skipBlanks (skipBlanks s) = skipBlanks s := by
  induction s with
  | nil => rfl
  | cons c s ih =>
    cases h : isBlank c with
    | true => simpa [skipBlanks, h] using ih
    | false => rw [skipBlanks_cons h, skipBlanks_cons h]

theorem skipBlanks_append {ws : List Char} (h : ∀ c ∈ ws, isBlank c = true) (s : List Char) :
    skipBlanks (ws ++ s) = skipBlanks s :=
  List.dropWhile_append_of_pos h

theorem skipBlanks_lineStart (l : Layout) (level : Nat) (s : List Char) :
    skipBlanks (l.lineStart level ++ s) = skipBlanks s := by
  apply skipBlanks_append
  intro c hc
  cases l with
  | compact => simp [Layout.lineStart] at hc
  | indented =>
    rcases List.mem_cons.1 hc with rfl | hc
    · rfl
    · rw [List.eq_of_mem_replicate hc]
      rfl

/-- Blanks before a value do not matter. -/
theorem readValue_congr {s t : List Char} (h : skipBlanks s = skipBlanks t) (room depth : Nat) :
    readValue room depth s = readValue room depth t := by
  cases depth with
  | zero => simp only [readValue, readTooDeep, skipOpen, h]
  | succ depth => simp only [readValue, h]

theorem skipOpen_congr {s t : List Char} (h : skipBlanks s = skipBlanks t) (steps : Nat)
    (brackets : List Bracket) : skipOpen steps true brackets s = skipOpen steps true brackets t := by
  cases steps with
  | zero => simp only [skipOpen]
  | succ steps => simp only [skipOpen, h]

theorem readName_congr {s t : List Char} (h : skipBlanks s = skipBlanks t) : readName s = readName t := by
  simp only [readName, h]

/-- After the name of a member comes a colon and perhaps a blank. -/
theorem readName_quote (l : Layout) (level : Nat) (name : String) (s : List Char) :
    ∃ t, readName (l.lineStart level ++ quote name ++ l.colon ++ s) = some (some name, t) ∧
      skipBlanks t = skipBlanks s := by
  have hquote : isBlank '"' = false := rfl
  have hcolon : isBlank ':' = false := rfl
  rw [List.append_assoc, List.append_assoc, quote_append, readName, skipBlanks_lineStart,
    skipBlanks_cons hquote]
  cases l with
  | compact =>
    refine ⟨s, ?_, rfl⟩
    simp [unquote_escaped, Layout.colon, skipBlanks_cons hcolon]
  | indented =>
    refine ⟨' ' :: s, ?_, rfl⟩
    simp [unquote_escaped, Layout.colon, skipBlanks_cons hcolon]

theorem skipBlanks_quote (l : Layout) (level : Nat) (name : String) (s : List Char) :
    ∃ t, skipBlanks (l.lineStart level ++ quote name ++ l.colon ++ s) = '"' :: t := by
  rw [List.append_assoc, List.append_assoc, skipBlanks_lineStart, quote_append]
  exact ⟨_, rfl⟩

/-! ## What may follow a value -/

theorem endsNumber_lineStart (l : Layout) (level : Nat) {c : Char} {rest : List Char}
    (h : EndsNumber (c :: rest)) : EndsNumber (l.lineStart level ++ c :: rest) := by
  cases l with
  | compact => exact h
  | indented => exact endsNumber_cons rfl (by decide) (by decide) (by decide)

theorem endsNumber_itemsChars (l : Layout) (level level' : Nat) (items : List Json) (rest : List Char) :
    EndsNumber (itemsChars l level items (l.lineStart level' ++ ']' :: rest)) := by
  cases items with
  | nil =>
    rw [itemsChars]
    exact endsNumber_lineStart l level' (endsNumber_cons rfl (by decide) (by decide) (by decide))
  | cons item items =>
    rw [itemsChars]
    exact endsNumber_cons rfl (by decide) (by decide) (by decide)

theorem endsNumber_membersChars (l : Layout) (level level' : Nat) (members : List (String × Json))
    (rest : List Char) :
    EndsNumber (membersChars l level members (l.lineStart level' ++ '\x7d' :: rest)) := by
  cases members with
  | nil =>
    rw [membersChars]
    exact endsNumber_lineStart l level' (endsNumber_cons rfl (by decide) (by decide) (by decide))
  | cons member members =>
    rw [membersChars]
    exact endsNumber_cons rfl (by decide) (by decide) (by decide)

/-! ## Values that survive being written -/

mutual

/-- Whether a value is written so that it can be read again: its whole numbers fit, its doubles are
read back, and nothing in it is unreadable. -/
def Restorable : Json → Prop
  | .whole n => Fits n
  | .real x => ReadsBack x
  | .array items => RestorableItems items
  | .object members => RestorableMembers members
  | .unreadable => False
  | _ => True

def RestorableItems : List Json → Prop
  | [] => True
  | item :: items => Restorable item ∧ RestorableItems items

def RestorableMembers : List (String × Json) → Prop
  | [] => True
  | (_, item) :: members => Restorable item ∧ RestorableMembers members

end

theorem restorableItems_iff {items : List Json} : RestorableItems items ↔ ∀ item ∈ items, Restorable item := by
  induction items with
  | nil => simp [RestorableItems]
  | cons item items ih => simp [RestorableItems, ih]

theorem restorableMembers_iff {members : List (String × Json)} :
    RestorableMembers members ↔ ∀ m ∈ members, Restorable m.2 := by
  induction members with
  | nil => simp [RestorableMembers]
  | cons m members ih => simp [RestorableMembers, ih]

/-- A value that is no array and no object. -/
def isSimple : Json → Bool
  | .array _ | .object _ => false
  | _ => true

/-- A text that begins as a value does: neither with a blank nor with a bracket that closes. -/
def StartsValue (s : List Char) : Prop :=
  ∃ c t, s = c :: t ∧ isBlank c = false ∧ c ≠ ']' ∧ c ≠ '\x7d'

/-- A text that begins as a value without parts does: with no bracket at all. -/
def StartsSimple (s : List Char) : Prop :=
  ∃ c t, s = c :: t ∧ isBlank c = false ∧ c ≠ '[' ∧ c ≠ ']' ∧ c ≠ '\x7b' ∧ c ≠ '\x7d'

theorem StartsSimple.startsValue {s : List Char} (h : StartsSimple s) : StartsValue s := by
  obtain ⟨c, t, hs, hc, -, h1, -, h2⟩ := h
  exact ⟨c, t, hs, hc, h1, h2⟩

theorem StartsValue.skipBlanks_eq {s : List Char} (h : StartsValue s) : skipBlanks s = s := by
  obtain ⟨c, t, rfl, hc, -⟩ := h
  exact skipBlanks_cons hc t

/-- A number begins as no array, no object, no text and no word does. -/
theorem readNumber_start {s : List Char} {x : Json × List Char} (h : readNumber s = some x) :
    readSimple s = readNumber s ∧ StartsSimple s := by
  obtain ⟨c, t, rfl⟩ : ∃ c t, s = c :: t := by
    cases s with
    | nil => simp [readNumber, readIntegerPart, readDigits] at h
    | cons c t => exact ⟨c, t, rfl⟩
  have hc {d : Char} (hd : ¬ (d = '-' ∨ d.isDigit = true)) : c ≠ d := by
    rintro rfl
    exact hd (readNumber_head h)
  refine ⟨?_, c, t, rfl, ?_, hc (by decide), hc (by decide), hc (by decide), hc (by decide)⟩
  · rw [readSimple]
    · intro u hu
      exact hc (d := 'n') (by decide) (List.cons.inj hu).1
    · intro u hu
      exact hc (d := 't') (by decide) (List.cons.inj hu).1
    · intro u hu
      exact hc (d := 'f') (by decide) (List.cons.inj hu).1
    · intro u hu
      exact hc (d := '"') (by decide) (List.cons.inj hu).1
  · simp only [isBlank, hc (d := ' ') (by decide), hc (d := '\t') (by decide),
      hc (d := '\n') (by decide), hc (d := '\r') (by decide), decide_false, Bool.or_self]

/-- **A value without parts is read back.** -/
theorem readSimple_chars (l : Layout) (level : Nat) {j : Json} (hs : j.isSimple = true)
    (hj : Restorable j) {rest : List Char} (hr : EndsNumber rest) :
    readSimple (chars l level j rest) = some (j, rest) ∧ StartsSimple (chars l level j rest) := by
  have hnumber {s : List Char} (h : readNumber s = some (j, [])) :
      readSimple (s ++ rest) = some (j, rest) ∧ StartsSimple (s ++ rest) := by
    have h' : readNumber (s ++ rest) = some (j, rest) := readNumber_append hr h
    obtain ⟨hread, hstart⟩ := readNumber_start h'
    exact ⟨hread.trans h', hstart⟩
  have hword {c : Char} {t : List Char} (hc : isBlank c = false)
      (hb : c ≠ '[' ∧ c ≠ ']' ∧ c ≠ '\x7b' ∧ c ≠ '\x7d') : StartsSimple (c :: t) :=
    ⟨c, t, rfl, hc, hb⟩
  cases j with
  | null =>
    rw [chars]
    exact ⟨rfl, hword rfl (by decide)⟩
  | bool b => cases b <;> rw [chars] <;> exact ⟨rfl, hword rfl (by decide)⟩
  | whole n =>
    rw [chars]
    exact hnumber (readNumber_wholeChars (by simpa only [Restorable] using hj))
  | real x =>
    rw [chars]
    have hx : ReadsBack x := by simpa only [Restorable] using hj
    exact hnumber hx
  | text s =>
    rw [chars, quote_append]
    exact ⟨by simp [readSimple, unquote_escaped], hword rfl (by decide)⟩
  | array items => simp [isSimple] at hs
  | object members => simp [isSimple] at hs
  | unreadable => simp [Restorable] at hj

theorem startsValue_chars (l : Layout) (level : Nat) {j : Json} (hj : Restorable j)
    {rest : List Char} (hr : EndsNumber rest) : StartsValue (chars l level j rest) := by
  cases j with
  | array items =>
    cases items <;> rw [chars] <;> exact ⟨_, _, rfl, rfl, by decide, by decide⟩
  | object members =>
    cases members <;> rw [chars] <;> exact ⟨_, _, rfl, rfl, by decide, by decide⟩
  | _ => exact (readSimple_chars l level rfl hj hr).2.startsValue

end Formulary.Json
