import Formulary.Decimal.Shortest

/-!
# Styles of writing doubles

Which digits a double is written with is settled in `Decimal.Shortest`; a style decides how they are
laid out. The library has two: `Style.plain`, in which expressions and messages show numbers, and
`Style.document`, in which documents hold them.
-/

namespace Formulary

/-- The decisions of a number format. -/
structure Style where
  /-- Which of two equally near decimals is written. -/
  tie : Tie
  /-- Whether a number whose first digit stands for `10 ^ e` is written without an exponent. -/
  positional : Int → Bool
  /-- What follows a whole number written without an exponent. -/
  wholeEnd : List Char

namespace Style

/-- Numbers in running text: never an exponent, no point in whole numbers. -/
def plain : Style where
  tie := .up
  positional := fun _ => true
  wholeEnd := []

/-- Numbers in documents: from `1e-5` up to below `1e16` without an exponent and always with a
point. -/
def document : Style where
  tie := .even
  positional := fun e => -5 ≤ e && e < 16
  wholeEnd := ['.', '0']

/-- An exponent, its sign always written. -/
def exponentChars (e : Int) : List Char :=
  'e' :: (if e < 0 then '-' else '+') :: Nat.toDigits 10 e.natAbs

def decimalChars (s : Style) (d : Decimal) : List Char :=
  let digits := Nat.toDigits 10 d.coefficient
  let first : Int := d.exponent + digits.length - 1
  if s.positional first then
    if 0 ≤ d.exponent then digits ++ List.replicate d.exponent.toNat '0' ++ s.wholeEnd
    else if 0 ≤ first then
      digits.take (first.toNat + 1) ++ '.' :: digits.drop (first.toNat + 1)
    else '0' :: '.' :: List.replicate (-first - 1).toNat '0' ++ digits
  else match digits with
    | [] => []
    | [digit] => digit :: exponentChars first
    | digit :: rest => digit :: '.' :: rest ++ exponentChars first

def finiteChars (s : Style) (x : Float) : List Char :=
  (if signOf x then ['-'] else []) ++ s.decimalChars (.shortest s.tie (rankOf x))

end Style

/-- A double as it is shown in expressions and messages. -/
def showNumber (x : Float) : String :=
  if x.isNaN then "NaN"
  else if x.isInf then if signOf x then "-inf" else "inf"
  else String.ofList (Style.plain.finiteChars x)

end Formulary
