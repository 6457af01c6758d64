import Formulary.Expr.Text
import Formulary.Proofs.Decimal.Shown
import Formulary.Proofs.Expr.Trail

/-!
# How the text of an expression is laid out

The text of a node is either a single word or a name, which may be empty, and items in parentheses with one and the
same text between them (`shownSlot_eq`). From these parts the node can be told (`tree?_of_outline`), but for look-ups by
one id in two kinds of stats; so what is told is the reduced tree, in which they are the same.
-/

namespace Formulary

/-! ## Names of stats -/

/-- A letter. Every character beyond ASCII counts as one. -/
def isLetter (c : Char) : Bool :=
  c.isAlpha || 128 ≤ c.toNat

/-- A letter or an underscore, and letters, digits and underscores behind it. -/
def IsIdentifier : List Char → Prop
  | [] => False
  | c :: rest => (isLetter c = true ∨ c = '_') ∧ ∀ d ∈ rest, isLetter d = true ∨ d.isDigit = true ∨ d = '_'

-- Written out, since the instance that is found by itself goes through all characters there are.
instance : DecidablePred IsIdentifier
  | [] => instDecidableFalse
  | _ :: rest => @instDecidableAnd _ _ inferInstance (List.decidableBAll _ rest)

/-- The identifiers that mean something else in a text. -/
def reservedNames : List String :=
  ["e", "mastery", "inf", "NaN"]

/-- A name that means nothing but a stat in a text. -/
def IsStatName (name : String) : Prop :=
  IsIdentifier name.toList ∧ name ∉ reservedNames

instance : DecidablePred IsStatName :=
  fun _ => inferInstanceAs (Decidable (_ ∧ _))

theorem isDigit_eq_false_of_isLetter {c : Char} (h : isLetter c = true ∨ c = '_') : c.isDigit = false := by
  rcases h with h | rfl
  · rw [Bool.eq_false_iff]
    intro hdigit
    simp only [isLetter, Char.isAlpha, Char.isUpper, Char.isLower, Char.isDigit, Bool.or_eq_true, Bool.and_eq_true,
      decide_eq_true_eq, ge_iff_le, UInt32.le_iff_toNat_le] at h hdigit
    change ((65 ≤ c.toNat ∧ c.toNat ≤ 90) ∨ (97 ≤ c.toNat ∧ c.toNat ≤ 122)) ∨ 128 ≤ c.toNat at h
    change 48 ≤ c.toNat ∧ c.toNat ≤ 57 at hdigit
    omega
  · rfl

theorem isWordChar_of_isLetter {c : Char} (h : isLetter c = true ∨ c = '_') : isWordChar c = true := by
  simp only [isWordChar, Bool.and_eq_true, decide_eq_true_eq]
  refine ⟨⟨⟨?_, ?_⟩, ?_⟩, ?_⟩
  all_goals
    rintro rfl
    exact absurd h (by decide)

theorem IsIdentifier.isWordChar : ∀ {name : List Char}, IsIdentifier name → ∀ c ∈ name, isWordChar c = true
  | c :: rest, h, d, hd => by
    rcases List.mem_cons.1 hd with rfl | hd
    · exact isWordChar_of_isLetter h.1
    · rcases h.2 d hd with hletter | hdigit | hunderscore
      · exact isWordChar_of_isLetter (.inl hletter)
      · exact isWordChar_of_isDigit hdigit
      · exact isWordChar_of_isLetter (.inr hunderscore)

/-! ## Words -/

/-- What is shown as a single word. -/
inductive Word where
  | absent
  | euler
  | mastery
  | name (text : String)
  | number (x : Float)

namespace Word

def text : Word → String
  | .absent => "?"
  | .euler => "e"
  | .mastery => "mastery"
  | .name text => text
  | .number x => showNumber x

/-- The operand slot that a word stands for, a name for the look-up of a core stat. -/
def slot : Word → Option Expr
  | .absent => none
  | .euler => some .euler
  | .mastery => some .mastery
  | .name text => some (.coreStat ⟨text⟩)
  | .number x => some (.constant x)

/-- The names among words are names of stats. -/
def IsProper : Word → Prop
  | .name text => IsStatName text
  | _ => True

/-- Other words begin like no number. -/
theorem head_text {w : Word} (hw : w.IsProper) : (∃ x, w = .number x) ∨
    w.text ∉ ["inf", "NaN"] ∧ ∃ c t, w.text.toList = c :: t ∧ c.isDigit = false ∧ c ≠ '-' := by
  cases w with
  | number x => exact .inl ⟨x, rfl⟩
  | absent => exact .inr ⟨by decide, '?', [], rfl, by decide, by decide⟩
  | euler => exact .inr ⟨by decide, 'e', [], rfl, by decide, by decide⟩
  | mastery => exact .inr ⟨by decide, 'm', "astery".toList, rfl, by decide, by decide⟩
  | name text =>
    right
    obtain ⟨hidentifier, hreserved⟩ := hw
    constructor
    · intro h
      exact hreserved (List.mem_cons_of_mem _ (List.mem_cons_of_mem _ h))
    · rw [Word.text]
      cases htext : text.toList with
      | nil =>
        rw [htext] at hidentifier
        exact absurd hidentifier id
      | cons c t =>
        rw [htext] at hidentifier
        refine ⟨c, t, rfl, isDigit_eq_false_of_isLetter hidentifier.1, ?_⟩
        · rintro rfl
          exact absurd hidentifier.1 (by decide)

/-- No number is shown as another word. -/
theorem eq_number_of_text_eq {w : Word} (hw : w.IsProper) {x : Float} (h : w.text = showNumber x) :
    w = .number x := by
  rcases head_text hw with ⟨y, rfl⟩ | ⟨hwords, c, t, htext, hdigit, hminus⟩
  · rw [showNumber_inj h]
  · rw [h] at hwords htext
    rcases head_showNumber x with hnan | hinf | ⟨c', t', htext', hc'⟩
    · exact absurd (by simp [hnan]) hwords
    · exact absurd (by simp [hinf]) hwords
    · rw [htext] at htext'
      obtain ⟨rfl, -⟩ := List.cons.inj htext'
      rcases hc' with hc' | hc'
      · rw [hdigit] at hc'
        cases hc'
      · exact absurd hc' hminus

/-- A name of a stat is no other word. -/
theorem eq_name_of_text_eq {w : Word} (hw : w.IsProper) {name : String} (hname : IsStatName name)
    (h : w.text = name) : w = .name name := by
  subst h
  cases w with
  | name text => rfl
  | absent => exact absurd hname.1 (by decide)
  | euler => exact absurd (by simp [Word.text, reservedNames]) hname.2
  | mastery => exact absurd (by simp [Word.text, reservedNames]) hname.2
  | number x => exact absurd (eq_number_of_text_eq (w := .name (showNumber x)) hname rfl) nofun

/-- **Words are told apart by their texts.** -/
theorem text_inj {w w' : Word} (hw : w.IsProper) (hw' : w'.IsProper) (h : w.text = w'.text) : w = w' := by
  cases w' with
  | number x => exact eq_number_of_text_eq hw h
  | name text => exact eq_name_of_text_eq hw hw' h
  | _ =>
    cases w with
    | number x => exact (eq_number_of_text_eq hw' h.symm).symm
    | name text => exact (eq_name_of_text_eq hw' hw h.symm).symm
    | _ => first | rfl | exact absurd h (by decide)

theorem text_ne_nil {w : Word} (hw : w.IsProper) : w.text.toList ≠ [] := by
  rcases head_text hw with ⟨x, rfl⟩ | ⟨-, c, t, htext, -⟩
  · rw [Word.text]
    rcases head_showNumber x with hnan | hinf | ⟨c, t, htext, -⟩
    · simp [hnan]
    · simp [hinf]
    · simp [htext]
  · simp [htext]

theorem isWordChar_of_mem {w : Word} (hw : w.IsProper) : ∀ c ∈ w.text.toList, isWordChar c = true := by
  cases w with
  | number x => exact fun c => isWordChar_of_mem_showNumber
  | name text => exact hw.1.isWordChar
  | _ => simp [Word.text, isWordChar]

end Word

/-! ## Outlines -/

/-- What stands between two items. -/
inductive Joint where
  | operator (op : Operator)
  | power
  | comma

def Joint.text : Joint → List Char
  | .operator op => op.separator
  | .power => [' ', '^', ' ']
  | .comma => [',', ' ']

/-- A joint begins with a character that separates words. -/
theorem Joint.head_text (j : Joint) : ∃ c t, j.text = c :: t ∧ (c = ' ' ∨ c = ',') := by
  cases j with
  | operator op => cases op <;> exact ⟨_, _, rfl, .inl rfl⟩
  | power => exact ⟨_, _, rfl, .inl rfl⟩
  | comma => exact ⟨_, _, rfl, .inr rfl⟩

/-- Joints are told apart by their texts, whatever follows. -/
theorem Joint.text_append_inj {j j' : Joint} {r r' : List Char} (h : j.text ++ r = j'.text ++ r') :
    j = j' ∧ r = r' := by
  have hops : ∀ op op' : Operator, op.separator ++ r = op'.separator ++ r' → op = op' ∧ r = r' := by
    intro op op' h
    cases op <;> cases op' <;> simp [Operator.separator] at h <;> simp [h]
  cases j with
  | operator op =>
    cases j' with
    | operator op' =>
      obtain ⟨rfl, hr⟩ := hops op op' h
      exact ⟨rfl, hr⟩
    | power => cases op <;> simp [text, Operator.separator] at h
    | comma => cases op <;> simp [text, Operator.separator] at h
  | power =>
    cases j' with
    | operator op => cases op <;> simp [text, Operator.separator] at h
    | power => exact ⟨rfl, by simpa [text] using h⟩
    | comma => simp [text] at h
  | comma =>
    cases j' with
    | operator op => cases op <;> simp [text, Operator.separator] at h
    | power => simp [text] at h
    | comma => exact ⟨rfl, by simpa [text] using h⟩

/-- The parts of a text: a word, or items in parentheses behind a name. -/
inductive Outline where
  | word (w : Word)
  | call (name : List Char) (joint : Joint) (items : List (Option Expr))

/-- The text with these parts, followed by `rest`. -/
def Outline.chars : Outline → List Char → List Char
  | .word w, rest => w.text.toList ++ rest
  | .call name joint items, rest => name ++ '(' :: Expr.separated joint.text items (')' :: rest)

def Extremum.word : Extremum → List Char
  | .max => ['m', 'a', 'x']
  | .min => ['m', 'i', 'n']

/-- The item that a chain has before its values. -/
def Operator.seed : Operator → List (Option Expr)
  | .addition | .multiplication => []
  | .subtraction => [some (.constant 0)]
  | .division => [some (.constant 1)]

theorem Operator.exists_of_mem_seed {op : Operator} {x : Option Expr} (h : x ∈ op.seed) :
    ∃ v, x = some (.constant v) := by
  cases op with
  | addition => cases h
  | multiplication => cases h
  | subtraction => exact ⟨0, List.mem_singleton.1 h⟩
  | division => exact ⟨1, List.mem_singleton.1 h⟩

namespace Expr

/-- The parts of the text of an expression. -/
def outline : Expr → Outline
  | .constant x => .word (.number x)
  | .euler => .word .euler
  | .mastery => .word .mastery
  | .coreStat stat => .word (.name stat.name)
  | .derivedStat stat => .word (.name stat.id.name)
  | .chain op xs => .call [] (.operator op) (op.seed ++ xs)
  | .power a b => .call [] .power [a, b]
  | .exponential a => .call ['e', 'x', 'p'] .comma [a]
  | .logarithmic a b => .call ['l', 'o', 'g'] .comma [a, b]
  | .clamp a b c => .call ['c', 'l', 'a', 'm', 'p'] .comma [a, b, c]
  | .extremum side xs => .call side.word .comma xs

def outlineSlot : Option Expr → Outline
  | none => .word .absent
  | some e => e.outline

theorem showNumber_zero : showNumber 0 = "0" := by
  decide +kernel

theorem showNumber_one : showNumber 1 = "1" := by
  decide +kernel

theorem shown_eq (e : Expr) (rest : List Char) : shown e rest = e.outline.chars rest := by
  cases e with
  | chain op xs =>
    cases op with
    | addition => rfl
    | multiplication => rfl
    | subtraction =>
      show _ = '(' :: ((showNumber 0).toList ++ _)
      rw [showNumber_zero]
      rfl
    | division =>
      show _ = '(' :: ((showNumber 1).toList ++ _)
      rw [showNumber_one]
      rfl
  | extremum side xs => cases side <;> rfl
  | _ => rfl

theorem shownSlot_eq (x : Option Expr) (rest : List Char) : shownSlot x rest = (outlineSlot x).chars rest := by
  cases x with
  | none => rfl
  | some e => exact shown_eq e rest

/-! ## Reduced trees -/

mutual

/-- The tree with every look-up reduced to its id, be it of a core stat or of a derived stat. -/
def reduced : Expr → Expr
  | .constant x => .constant x
  | .euler => .euler
  | .mastery => .mastery
  | .coreStat stat => .coreStat stat
  | .derivedStat stat => .coreStat ⟨stat.id.name⟩
  | .chain op xs => .chain op (reducedSlots xs)
  | .extremum side xs => .extremum side (reducedSlots xs)
  | .power a b => .power (reducedSlot a) (reducedSlot b)
  | .exponential a => .exponential (reducedSlot a)
  | .logarithmic a b => .logarithmic (reducedSlot a) (reducedSlot b)
  | .clamp a b c => .clamp (reducedSlot a) (reducedSlot b) (reducedSlot c)

def reducedSlot : Option Expr → Option Expr
  | none => none
  | some e => some (reduced e)

def reducedSlots : List (Option Expr) → List (Option Expr)
  | [] => []
  | x :: xs => reducedSlot x :: reducedSlots xs

end

theorem length_reducedSlots (xs : List (Option Expr)) : (reducedSlots xs).length = xs.length := by
  induction xs with
  | nil => rfl
  | cons x xs ih => rw [reducedSlots, List.length_cons, ih, List.length_cons]

/-! ## From the parts back to the tree -/

/-- The tree of a name, a joint and items. -/
def tree? (name : List Char) (joint : Joint) (items : List (Option Expr)) : Option Expr :=
  match name, joint, items with
  | [], .operator op, items => some (.chain op (items.drop op.seed.length))
  | [], .power, [a, b] => some (.power a b)
  | ['e', 'x', 'p'], _, [a] => some (.exponential a)
  | ['l', 'o', 'g'], _, [a, b] => some (.logarithmic a b)
  | ['c', 'l', 'a', 'm', 'p'], _, [a, b, c] => some (.clamp a b c)
  | ['m', 'a', 'x'], _, items => some (.extremum .max items)
  | ['m', 'i', 'n'], _, items => some (.extremum .min items)
  | _, _, _ => none

theorem slot_of_outlineSlot {x : Option Expr} {w : Word} (h : outlineSlot x = .word w) : reducedSlot x = w.slot := by
  cases x with
  | none =>
    obtain rfl := Outline.word.inj h
    rfl
  | some e =>
    rw [outlineSlot] at h
    cases e with
    | constant x | euler | mastery | coreStat stat | derivedStat stat =>
      obtain rfl := Outline.word.inj h
      rfl
    | _ => cases h

/-- **The reduced tree of a node can be told from its parts.** -/
theorem tree?_of_outline {e : Expr} {name : List Char} {joint : Joint} {items : List (Option Expr)}
    (h : e.outline = .call name joint items) : tree? name joint (reducedSlots items) = some e.reduced := by
  cases e with
  | chain op xs =>
    obtain ⟨rfl, rfl, rfl⟩ := Outline.call.inj h
    cases op <;> rfl
  | extremum side xs =>
    obtain ⟨rfl, rfl, rfl⟩ := Outline.call.inj h
    cases side <;> rfl
  | power a b | exponential a | logarithmic a b | clamp a b c =>
    obtain ⟨rfl, rfl, rfl⟩ := Outline.call.inj h
    rfl
  | _ => cases h

end Expr

end Formulary
