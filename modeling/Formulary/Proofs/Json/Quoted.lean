import Mathlib.Data.Option.Basic
import Formulary.Json.Quoted

/-!
# Quoted text read back

Every character is escaped on its own, and the reader takes each escape for one piece (`pieces_escapeChar`), none of
them half of a pair. So the text is read back: `unquote_escaped`.
-/

namespace Formulary.Json

/-- The piece that a character is read as when it has been escaped. -/
def pieceOf (c : Char) : Piece :=
  if 0x20 ≤ c.toNat ∨ c.toNat = 0x08 ∨ c.toNat = 0x0c ∨ c = '\n' ∨ c = '\r' ∨ c = '\t' then .char c
  else .unit c.toNat

/-! ## Hexadecimal digits -/

theorem hexValue?_hexDigit : ∀ n < 16, hexValue? (hexDigit n) = some n := by decide

/-- The four digits of a control character spell its number. -/
theorem unitOf?_hexDigit {n : Nat} (h : n < 0x20) :
    unitOf? '0' '0' (hexDigit (n / 16)) (hexDigit (n % 16)) = some n := by
  have hhigh := hexValue?_hexDigit (n / 16) (by omega)
  have hlow := hexValue?_hexDigit (n % 16) (by omega)
  have hzero : hexValue? '0' = some 0 := by decide
  have hn : ((0 * 16 + 0) * 16 + n / 16) * 16 + n % 16 = n := by omega
  simp only [unitOf?, hhigh, hlow, hzero, Option.bind_eq_bind, Option.bind_some, hn]
  rfl

/-! ## One character -/

theorem eq_of_toNat {c d : Char} (h : c.toNat = d.toNat) : c = d :=
  Char.ext (UInt32.toNat_inj.1 h)

/-- An escaped character is read as one piece. -/
theorem pieces_escapeChar (c : Char) (rest : List Char) :
    pieces (escapeChar c ++ rest) = (pieces rest).map fun (ps, rest) => (pieceOf c :: ps, rest) := by
  unfold escapeChar
  split
  · next h => subst h; cases h : pieces rest <;> simp [pieces, shortEscape?, pieceOf, h]
  split
  · next h => subst h; cases h : pieces rest <;> simp [pieces, shortEscape?, pieceOf, h]
  split
  · next h =>
    obtain rfl : c = Char.ofNat 0x08 := eq_of_toNat h
    cases h : pieces rest <;> simp [pieces, shortEscape?, pieceOf, h]
  split
  · next h =>
    obtain rfl : c = Char.ofNat 0x0c := eq_of_toNat h
    cases h : pieces rest <;> simp [pieces, shortEscape?, pieceOf, h]
  split
  · next h => subst h; cases h : pieces rest <;> simp [pieces, shortEscape?, pieceOf, h]
  split
  · next h => subst h; cases h : pieces rest <;> simp [pieces, shortEscape?, pieceOf, h]
  split
  · next h => subst h; cases h : pieces rest <;> simp [pieces, shortEscape?, pieceOf, h]
  split
  · next h8 hc hn hr ht h =>
    have hpiece : pieceOf c = .unit c.toNat := by
      simp only [pieceOf, h8, hc, hn, hr, ht, or_false]
      exact if_neg (by omega)
    cases hp : pieces rest <;> simp [pieces, unitOf?_hexDigit h, hpiece, hp]
  · next hquote hback _ _ _ _ _ h =>
    have hpiece : pieceOf c = .char c := if_pos (.inl (by omega))
    rw [List.singleton_append, pieces]
    · have hguard : (guard (0x20 ≤ c.toNat) : Option Unit) = some () := if_pos (by omega)
      rw [hguard, hpiece]
      cases pieces rest <;> rfl
    all_goals simp_all

theorem joinPieces_pieceOf (c : Char) (ps : List Piece) :
    joinPieces (pieceOf c :: ps) = (joinPieces ps).map (c :: ·) := by
  unfold pieceOf
  split
  · rfl
  · next h =>
    have hlow : c.toNat < 0x20 := by omega
    have hhigh : isHigh c.toNat = false := by simp [isHigh]; omega
    have hlow' : isLow c.toNat = false := by simp [isLow]; omega
    rw [joinPieces.eq_def]
    simp only [hhigh, hlow', Char.ofNat_toNat]
    rfl

/-! ## Whole texts -/

/-- Escaped characters up to the closing quotation mark are read as one piece each. -/
theorem pieces_flatMap_escapeChar (cs rest : List Char) :
    pieces (cs.flatMap escapeChar ++ '"' :: rest) = some (cs.map pieceOf, rest) := by
  induction cs with
  | nil => rfl
  | cons c cs ih => rw [List.flatMap_cons, List.append_assoc, pieces_escapeChar, ih]; rfl

theorem joinPieces_map_pieceOf (cs : List Char) : joinPieces (cs.map pieceOf) = some cs := by
  induction cs with
  | nil => rfl
  | cons c cs ih => rw [List.map_cons, joinPieces_pieceOf, ih]; rfl

theorem quote_append (s : String) (rest : List Char) :
    quote s ++ rest = '"' :: (s.toList.flatMap escapeChar ++ '"' :: rest) := by
  simp [quote]

/-- **A quoted text is read as itself**, whatever follows it. -/
theorem unquote_escaped (s : String) (rest : List Char) :
    unquote (s.toList.flatMap escapeChar ++ '"' :: rest) = some (some s, rest) := by
  simp only [unquote, pieces_flatMap_escapeChar, Option.map_some, joinPieces_map_pieceOf,
    String.ofList_toList]

end Formulary.Json
