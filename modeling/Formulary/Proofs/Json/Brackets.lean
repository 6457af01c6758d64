import Formulary.Json.Writer
import Formulary.Proofs.Json.Quoted

/-!
# Brackets in a text

How deep a text nests can be seen without reading it: by counting the brackets that are open, except for
those between quotation marks (`bracketDepth`). For a written value this is how many arrays and objects
stand inside one another: `bracketDepth_render`.
-/

namespace Formulary.Json

/-- What a character is part of. -/
inductive Within where
  /-- a value or the brackets and blanks around it -/
  | value
  /-- a quoted text -/
  | quoted
  /-- a quoted text, right after a backslash -/
  | escaped

/-- The most brackets that are open at one time from here on, `count` being open now. -/
def deepestFrom : Within → (count : Nat) → List Char → Nat
  | _, count, [] => count
  | .value, count, c :: rest =>
    if c = '"' then deepestFrom .quoted count rest
    else if c = '[' ∨ c = '\x7b' then deepestFrom .value (count + 1) rest
    else if c = ']' ∨ c = '\x7d' then max count (deepestFrom .value (count - 1) rest)
    else deepestFrom .value count rest
  | .quoted, count, c :: rest =>
    if c = '"' then deepestFrom .value count rest
    else if c = '\\' then deepestFrom .escaped count rest
    else deepestFrom .quoted count rest
  | .escaped, count, _ :: rest => deepestFrom .quoted count rest

/-- How many brackets of a text stand inside one another. -/
def bracketDepth (s : String) : Nat :=
  deepestFrom .value 0 s.toList

/-- A character that is neither a bracket nor a quotation mark. -/
def IsPlain (c : Char) : Prop :=
  c ≠ '"' ∧ c ≠ '[' ∧ c ≠ '\x7b' ∧ c ≠ ']' ∧ c ≠ '\x7d'

theorem le_deepestFrom : ∀ (s : List Char) (w : Within) (count : Nat), count ≤ deepestFrom w count s
  | [], w, count => by simp [deepestFrom]
  | c :: rest, .value, count => by
    rw [deepestFrom]
    split
    · exact le_deepestFrom rest .quoted count
    split
    · exact Nat.le_trans (Nat.le_succ count) (le_deepestFrom rest .value (count + 1))
    split
    · exact Nat.le_max_left ..
    · exact le_deepestFrom rest .value count
  | c :: rest, .quoted, count => by
    rw [deepestFrom]
    split
    · exact le_deepestFrom rest .value count
    split
    · exact le_deepestFrom rest .escaped count
    · exact le_deepestFrom rest .quoted count
  | c :: rest, .escaped, count => by
    rw [deepestFrom]
    exact le_deepestFrom rest .quoted count

/-! ## Characters that open and close nothing -/

theorem deepestFrom_plain (count : Nat) (rest : List Char) {s : List Char} (h : ∀ c ∈ s, IsPlain c) :
    deepestFrom .value count (s ++ rest) = deepestFrom .value count rest := by
  induction s with
  | nil => rfl
  | cons c s ih =>
    obtain ⟨h1, h2, h3, h4, h5⟩ := h c List.mem_cons_self
    rw [List.cons_append, deepestFrom, if_neg h1, if_neg (by simp [h2, h3]), if_neg (by simp [h4, h5])]
    apply ih
    intro d hd
    exact h d (List.mem_cons_of_mem _ hd)

theorem isPlain_of_isDigit {c : Char} (h : c.isDigit = true) : IsPlain c := by
  refine ⟨?_, ?_, ?_, ?_, ?_⟩ <;> rintro rfl <;> exact absurd h (by decide)

theorem isPlain_of_mem_toDigits {n : Nat} {c : Char} (h : c ∈ Nat.toDigits 10 n) : IsPlain c := by
  apply isPlain_of_isDigit
  exact Nat.isDigit_of_mem_toDigits (by omega) (by omega) h

theorem isPlain_of_mem_lineStart {l : Layout} {level : Nat} {c : Char} (h : c ∈ l.lineStart level) : IsPlain c := by
  cases l with
  | compact => simp [Layout.lineStart] at h
  | indented =>
    rcases List.mem_cons.1 h with rfl | h
    · simp [IsPlain]
    · rw [List.eq_of_mem_replicate h]
      simp [IsPlain]

theorem isPlain_of_mem_colon {l : Layout} {c : Char} (h : c ∈ l.colon) : IsPlain c := by
  cases l <;> simp [Layout.colon] at h
  · rw [h]
    simp [IsPlain]
  · rcases h with rfl | rfl <;> simp [IsPlain]

theorem isPlain_of_mem_wholeChars {n : Int} {c : Char} (h : c ∈ wholeChars n) : IsPlain c := by
  rcases List.mem_append.1 h with h | h
  · split at h
    · rw [List.mem_singleton.1 h]
      simp [IsPlain]
    · simp at h
  · exact isPlain_of_mem_toDigits h

theorem isPlain_of_mem_exponentChars {e : Int} {c : Char} (h : c ∈ Style.exponentChars e) : IsPlain c := by
  rcases List.mem_cons.1 h with rfl | h
  · simp [IsPlain]
  rcases List.mem_cons.1 h with rfl | h
  · split <;> simp [IsPlain]
  · exact isPlain_of_mem_toDigits h

theorem isPlain_of_mem_decimalChars {d : Decimal} {c : Char} (h : c ∈ Style.document.decimalChars d) :
    IsPlain c := by
  have hdigit : ∀ c ∈ Nat.toDigits 10 d.coefficient, IsPlain c := by
    intro c hc
    exact isPlain_of_mem_toDigits hc
  have hzero : IsPlain '0' := by simp [IsPlain]
  have hpoint : IsPlain '.' := by simp [IsPlain]
  unfold Style.decimalChars at h
  dsimp only at h
  split at h
  · split at h
    · rcases List.mem_append.1 h with h | h
      · rcases List.mem_append.1 h with h | h
        · exact hdigit c h
        · rwa [List.eq_of_mem_replicate h]
      · simp only [Style.document, List.mem_cons, List.not_mem_nil, or_false] at h
        rcases h with rfl | rfl
        · exact hpoint
        · exact hzero
    · split at h
      · rcases List.mem_append.1 h with h | h
        · exact hdigit c (List.mem_of_mem_take h)
        rcases List.mem_cons.1 h with rfl | h
        · exact hpoint
        · exact hdigit c (List.mem_of_mem_drop h)
      · simp only [List.cons_append, List.mem_cons, List.mem_append] at h
        rcases h with rfl | rfl | h | h
        · exact hzero
        · exact hpoint
        · rwa [List.eq_of_mem_replicate h]
        · exact hdigit c h
  · generalize hds : Nat.toDigits 10 d.coefficient = digits at h hdigit
    match digits with
    | [] => simp at h
    | [digit] =>
      rcases List.mem_cons.1 h with rfl | h
      · exact hdigit c List.mem_cons_self
      · exact isPlain_of_mem_exponentChars h
    | digit :: next :: rest =>
      simp only [List.cons_append, List.mem_cons, List.mem_append] at h
      rcases h with rfl | rfl | rfl | h | h
      · exact hdigit c (by simp)
      · exact hpoint
      · exact hdigit c (by simp)
      · exact hdigit c (by simp [h])
      · exact isPlain_of_mem_exponentChars h

theorem isPlain_of_mem_finiteChars {x : Float} {c : Char} (h : c ∈ Style.document.finiteChars x) : IsPlain c := by
  rcases List.mem_append.1 h with h | h
  · split at h
    · rw [List.mem_singleton.1 h]
      simp [IsPlain]
    · simp at h
  · exact isPlain_of_mem_decimalChars h

/-! ## Quoted texts -/

theorem hexDigit_ne : ∀ n < 16, hexDigit n ≠ '"' ∧ hexDigit n ≠ '\\' := by decide

/-- An escaped character leaves a quoted text open. -/
theorem deepestFrom_escapeChar (count : Nat) (c : Char) (rest : List Char) :
    deepestFrom .quoted count (escapeChar c ++ rest) = deepestFrom .quoted count rest := by
  unfold escapeChar
  split
  · simp [deepestFrom]
  split
  · simp [deepestFrom]
  split
  · simp [deepestFrom]
  split
  · simp [deepestFrom]
  split
  · simp [deepestFrom]
  split
  · simp [deepestFrom]
  split
  · simp [deepestFrom]
  split
  · next h =>
    have hhigh := hexDigit_ne (c.toNat / 16) (by omega)
    have hlow := hexDigit_ne (c.toNat % 16) (by omega)
    simp [deepestFrom, hhigh, hlow]
  · next hquote hback _ _ _ _ _ _ => simp [deepestFrom, hquote, hback]

theorem deepestFrom_flatMap_escapeChar (count : Nat) (rest : List Char) (cs : List Char) :
    deepestFrom .quoted count (cs.flatMap escapeChar ++ '"' :: rest) = deepestFrom .value count rest := by
  induction cs with
  | nil => simp [deepestFrom]
  | cons c cs ih => rw [List.flatMap_cons, List.append_assoc, deepestFrom_escapeChar, ih]

/-- A quoted text opens and closes nothing, whatever it holds. -/
theorem deepestFrom_quote (count : Nat) (s : String) (rest : List Char) :
    deepestFrom .value count (quote s ++ rest) = deepestFrom .value count rest := by
  rw [quote_append, deepestFrom, if_pos rfl, deepestFrom_flatMap_escapeChar]

/-! ## Values -/

theorem deepestFrom_lineStart (count : Nat) (l : Layout) (level : Nat) (rest : List Char) :
    deepestFrom .value count (l.lineStart level ++ rest) = deepestFrom .value count rest :=
  deepestFrom_plain count rest fun _ => isPlain_of_mem_lineStart

/-- A closing bracket on a line of its own. -/
theorem deepestFrom_close (count : Nat) (l : Layout) (level : Nat) {c : Char} (h : c = ']' ∨ c = '\x7d')
    (rest : List Char) : deepestFrom .value (count + 1) (l.lineStart level ++ c :: rest) =
      max (count + 1) (deepestFrom .value count rest) := by
  rw [deepestFrom_lineStart]
  rcases h with rfl | rfl <;> simp [deepestFrom]

/-- The name of a member opens and closes nothing. -/
theorem deepestFrom_name (count : Nat) (l : Layout) (level : Nat) (name : String) (rest : List Char) :
    deepestFrom .value count (l.lineStart level ++ quote name ++ l.colon ++ rest) =
      deepestFrom .value count rest := by
  rw [List.append_assoc, List.append_assoc, deepestFrom_lineStart, deepestFrom_quote]
  exact deepestFrom_plain count rest fun _ => isPlain_of_mem_colon

theorem deepestFrom_open (count : Nat) {c : Char} (h : c = '[' ∨ c = '\x7b') (rest : List Char) :
    deepestFrom .value count (c :: rest) = deepestFrom .value (count + 1) rest := by
  rcases h with rfl | rfl <;> simp [deepestFrom]

theorem deepestFrom_comma (count : Nat) (rest : List Char) :
    deepestFrom .value count (',' :: rest) = deepestFrom .value count rest := by
  simp [deepestFrom]

mutual

/-- What a written value adds to the brackets that are open. -/
theorem deepestFrom_chars (l : Layout) : ∀ (j : Json) (level count : Nat) (rest : List Char),
    deepestFrom .value count (chars l level j rest) =
      max (count + nesting j) (deepestFrom .value count rest)
  | .array [], level, count, rest => by
    rw [chars, deepestFrom_open count (.inl rfl)]
    exact deepestFrom_close count .compact 0 (.inl rfl) rest
  | .object [], level, count, rest => by
    rw [chars, deepestFrom_open count (.inr rfl)]
    exact deepestFrom_close count .compact 0 (.inr rfl) rest
  | .array (item :: items), level, count, rest => by
    rw [chars, deepestFrom_open count (.inl rfl), deepestFrom_lineStart, deepestFrom_chars l item,
      deepestFrom_itemsChars l items, deepestFrom_close count l level (.inl rfl), nesting, nestingItems]
    omega
  | .object ((name, item) :: members), level, count, rest => by
    rw [chars, deepestFrom_open count (.inr rfl), deepestFrom_name, deepestFrom_chars l item,
      deepestFrom_membersChars l members, deepestFrom_close count l level (.inr rfl), nesting, nestingMembers]
    omega
  | .null, level, count, rest => by
    have := le_deepestFrom rest .value count
    simp [chars, deepestFrom, nesting]
    omega
  | .unreadable, level, count, rest => by
    have := le_deepestFrom rest .value count
    simp [chars, deepestFrom, nesting]
    omega
  | .bool true, level, count, rest => by
    have := le_deepestFrom rest .value count
    simp [chars, deepestFrom, nesting]
    omega
  | .bool false, level, count, rest => by
    have := le_deepestFrom rest .value count
    simp [chars, deepestFrom, nesting]
    omega
  | .whole n, level, count, rest => by
    have := le_deepestFrom rest .value count
    rw [chars, deepestFrom_plain count rest fun _ => isPlain_of_mem_wholeChars]
    simp only [nesting]
    omega
  | .real x, level, count, rest => by
    have := le_deepestFrom rest .value count
    rw [chars, deepestFrom_plain count rest fun _ => isPlain_of_mem_finiteChars]
    simp only [nesting]
    omega
  | .text s, level, count, rest => by
    have := le_deepestFrom rest .value count
    rw [chars, deepestFrom_quote]
    simp only [nesting]
    omega

theorem deepestFrom_itemsChars (l : Layout) : ∀ (items : List Json) (level count : Nat) (rest : List Char),
    deepestFrom .value count (itemsChars l level items rest) =
      max (count + nestingItems items) (deepestFrom .value count rest)
  | [], level, count, rest => by
    have := le_deepestFrom rest .value count
    rw [itemsChars, nestingItems]
    omega
  | item :: items, level, count, rest => by
    rw [itemsChars, deepestFrom_comma, deepestFrom_lineStart, deepestFrom_chars l item,
      deepestFrom_itemsChars l items, nestingItems]
    omega

theorem deepestFrom_membersChars (l : Layout) :
    ∀ (members : List (String × Json)) (level count : Nat) (rest : List Char),
      deepestFrom .value count (membersChars l level members rest) =
        max (count + nestingMembers members) (deepestFrom .value count rest)
  | [], level, count, rest => by
    have := le_deepestFrom rest .value count
    rw [membersChars, nestingMembers]
    omega
  | (name, item) :: members, level, count, rest => by
    rw [membersChars, deepestFrom_comma, deepestFrom_name, deepestFrom_chars l item,
      deepestFrom_membersChars l members, nestingMembers]
    omega

end

/-- **The brackets of a written value** nest as deep as the arrays and objects in it. -/
theorem bracketDepth_render (l : Layout) (j : Json) : bracketDepth (j.render l) = nesting j := by
  have h := deepestFrom_chars l j 0 0 []
  simpa [bracketDepth, render, deepestFrom] using h

end Formulary.Json
