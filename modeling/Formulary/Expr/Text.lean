import Formulary.Expr.Basic
import Formulary.Decimal.Style

/-!
# Expressions as text

An expression is shown on one line, fully in parentheses: `(0 - STR - 2)`, `max(1, ?)`,
`clamp(MAX_HP, 0, 50)`. An absent operand is shown as `?`, a look-up as the name of what it looks up.
-/

namespace Formulary

/-- What stands between the values of a chain. -/
def Operator.separator : Operator → List Char
  | .addition => [' ', '+', ' ']
  | .subtraction => [' ', '-', ' ']
  | .multiplication => [' ', '*', ' ']
  | .division => [' ', '/', ' ']

/-- The name of an extremum, up to the opening parenthesis. -/
def Extremum.opening : Extremum → List Char
  | .max => ['m', 'a', 'x', '(']
  | .min => ['m', 'i', 'n', '(']

namespace Expr

mutual

/-- The text of an expression, followed by `rest`. -/
def shown : Expr → List Char → List Char
  | .constant x, rest => (showNumber x).toList ++ rest
  | .euler, rest => 'e' :: rest
  | .chain .addition xs, rest => '(' :: separated Operator.addition.separator xs (')' :: rest)
  | .chain .subtraction xs, rest =>
    '(' :: '0' :: following Operator.subtraction.separator xs (')' :: rest)
  | .chain .multiplication xs, rest =>
    '(' :: separated Operator.multiplication.separator xs (')' :: rest)
  | .chain .division xs, rest =>
    '(' :: '1' :: following Operator.division.separator xs (')' :: rest)
  | .extremum side xs, rest => side.opening ++ separated [',', ' '] xs (')' :: rest)
  | .power a b, rest => '(' :: shownSlot a (' ' :: '^' :: ' ' :: shownSlot b (')' :: rest))
  | .exponential a, rest => 'e' :: 'x' :: 'p' :: '(' :: shownSlot a (')' :: rest)
  | .logarithmic a b, rest =>
    'l' :: 'o' :: 'g' :: '(' :: shownSlot a (',' :: ' ' :: shownSlot b (')' :: rest))
  | .clamp a b c, rest =>
    'c' :: 'l' :: 'a' :: 'm' :: 'p' :: '(' ::
      shownSlot a (',' :: ' ' :: shownSlot b (',' :: ' ' :: shownSlot c (')' :: rest)))
  | .coreStat stat, rest => stat.name.toList ++ rest
  | .derivedStat stat, rest => stat.id.name.toList ++ rest
  | .mastery, rest => 'm' :: 'a' :: 's' :: 't' :: 'e' :: 'r' :: 'y' :: rest

/-- The text of an operand slot, followed by `rest`. -/
def shownSlot : Option Expr → List Char → List Char
  | none, rest => '?' :: rest
  | some e, rest => shown e rest

/-- The texts of operand slots, each after `separator`, followed by `rest`. -/
def following (separator : List Char) : List (Option Expr) → List Char → List Char
  | [], rest => rest
  | x :: xs, rest => separator ++ shownSlot x (following separator xs rest)

/-- The texts of operand slots with `separator` between them, followed by `rest`. -/
def separated (separator : List Char) : List (Option Expr) → List Char → List Char
  | [], rest => rest
  | x :: xs, rest => shownSlot x (following separator xs rest)

end

def display (e : Expr) : String :=
  String.ofList (e.shown [])

end Expr

end Formulary
