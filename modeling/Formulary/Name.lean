/-!
# Names

Stats, abilities, formulas and stored values are all found by name. A name is told apart by its text
alone, and names are ordered by the bytes of their UTF-8 encoding. The order is strict and total:
`Precedes.irrefl`, `Precedes.trans` and `Precedes.trichotomy`.
-/

namespace Formulary

def utf8 (s : String) : List UInt8 :=
  s.toByteArray.data.toList

theorem utf8_inj {s t : String} (h : utf8 s = utf8 t) : s = t :=
  String.toByteArray_inj.1 (ByteArray.ext (Array.toList_inj.1 h))

/-- Values told apart by a text, their name. -/
class Named (κ : Type) where
  text : κ → String
  text_inj : ∀ {a b : κ}, text a = text b → a = b

instance : Named String where
  text := id
  text_inj := id

section
variable {κ : Type} [Named κ]

/-- `a` comes before `b` in the byte order of their names. -/
def Precedes (a b : κ) : Prop :=
  utf8 (Named.text a) < utf8 (Named.text b)

instance (a b : κ) : Decidable (Precedes a b) :=
  inferInstanceAs (Decidable (utf8 (Named.text a) < utf8 (Named.text b)))

theorem Precedes.irrefl (a : κ) : ¬ Precedes a a :=
  List.lt_irrefl _

theorem Precedes.trans {a b c : κ} (hab : Precedes a b) (hbc : Precedes b c) : Precedes a c :=
  List.lt_trans hab hbc

theorem Precedes.ne {a b : κ} (h : Precedes a b) : a ≠ b :=
  fun hab => Precedes.irrefl b (hab ▸ h)

theorem Precedes.asymm {a b : κ} (h : Precedes a b) : ¬ Precedes b a :=
  fun h' => Precedes.irrefl a (h.trans h')

theorem Precedes.trichotomy (a b : κ) : Precedes a b ∨ a = b ∨ Precedes b a := by
  by_cases hab : Precedes a b
  · exact .inl hab
  · by_cases hba : Precedes b a
    · exact .inr (.inr hba)
    · exact .inr (.inl (Named.text_inj (utf8_inj (List.le_antisymm hba hab))))

end

end Formulary
