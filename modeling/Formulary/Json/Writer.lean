import Formulary.Json.Basic
import Formulary.Json.Quoted
import Formulary.Decimal.Style

/-!
# Writing documents

A value is written either on one line, without any blank, or indented with one item or member to a
line.
-/

namespace Formulary.Json

/-- How the parts of a value are set apart. -/
inductive Layout where
  /-- on one line without blanks -/
  | compact
  /-- one item or member to a line, two spaces to a level -/
  | indented
deriving DecidableEq, Repr

/-- What stands before an item or a closing bracket at a level. -/
def Layout.lineStart : Layout → Nat → List Char
  | .compact, _ => []
  | .indented, level => '\n' :: List.replicate (2 * level) ' '

def Layout.colon : Layout → List Char
  | .compact => [':']
  | .indented => [':', ' ']

def wholeChars (n : Int) : List Char :=
  (if n < 0 then ['-'] else []) ++ Nat.toDigits 10 n.natAbs

mutual

/-- The text of a value that stands at a level, followed by `rest`. What is unreadable is written as
`null`. -/
def chars (l : Layout) (level : Nat) : Json → List Char → List Char
  | .null, rest | .unreadable, rest => 'n' :: 'u' :: 'l' :: 'l' :: rest
  | .bool true, rest => 't' :: 'r' :: 'u' :: 'e' :: rest
  | .bool false, rest => 'f' :: 'a' :: 'l' :: 's' :: 'e' :: rest
  | .whole n, rest => wholeChars n ++ rest
  | .real x, rest => Style.document.finiteChars x ++ rest
  | .text s, rest => quote s ++ rest
  | .array [], rest => '[' :: ']' :: rest
  | .array (item :: items), rest =>
    '[' :: (l.lineStart (level + 1) ++ chars l (level + 1) item
      (itemsChars l (level + 1) items (l.lineStart level ++ ']' :: rest)))
  | .object [], rest => '\x7b' :: '\x7d' :: rest
  | .object ((name, item) :: members), rest =>
    '\x7b' :: (l.lineStart (level + 1) ++ quote name ++ l.colon ++ chars l (level + 1) item
      (membersChars l (level + 1) members (l.lineStart level ++ '\x7d' :: rest)))

/-- The text of the items after the first one, followed by `rest`. -/
def itemsChars (l : Layout) (level : Nat) : List Json → List Char → List Char
  | [], rest => rest
  | item :: items, rest =>
    ',' :: (l.lineStart level ++ chars l level item (itemsChars l level items rest))

/-- The text of the members after the first one, followed by `rest`. -/
def membersChars (l : Layout) (level : Nat) : List (String × Json) → List Char → List Char
  | [], rest => rest
  | (name, item) :: members, rest =>
    ',' :: (l.lineStart level ++ quote name ++ l.colon ++
      chars l level item (membersChars l level members rest))

end

def render (l : Layout) (j : Json) : String :=
  String.ofList (j.chars l 0 [])

end Formulary.Json
