import Formulary.Json.Basic
import Formulary.Json.Quoted
import Formulary.Decimal.Scaled

/-!
# Reading documents

Each function here takes the characters to be read and returns what it read together with the
characters that are left, or nothing if they break the rules of spelling. Nesting is bounded: of arrays
and objects inside one another only the outermost `Json.deepest` levels are built, and what is deeper is
skipped and unreadable.
-/

namespace Formulary.Json

/-- Space, tab, line feed and carriage return may stand between the parts of a document. -/
def isBlank (c : Char) : Bool :=
  c = ' ' || c = '\t' || c = '\n' || c = '\r'

/-- The characters from the first one that is not blank. -/
def skipBlanks (input : List Char) : List Char :=
  input.dropWhile isBlank

/-! ## Numbers -/

def digitsValue (digits : List Char) : Nat :=
  digits.foldl (fun n c => n * 10 + (c.toNat - '0'.toNat)) 0

/-- One or more decimal digits. -/
def readDigits (input : List Char) : Option (List Char × List Char) :=
  match input.takeWhile Char.isDigit with
  | [] => none
  | digits => some (digits, input.dropWhile Char.isDigit)

/-- The digits before the point: a zero alone, or a number that does not begin with one. -/
def readIntegerPart : List Char → Option (List Char × List Char)
  | '0' :: rest => if (rest.headD ' ').isDigit then none else some (['0'], rest)
  | input => readDigits input

/-- The point and the digits after it, if there is a point. -/
def readFraction : List Char → Option (Option (List Char) × List Char)
  | '.' :: rest => (readDigits rest).map fun (digits, rest) => (some digits, rest)
  | input => some (none, input)

def readExponent : List Char → Option (Option Int × List Char)
  | e :: rest =>
    if e = 'e' ∨ e = 'E' then
      match rest with
      | '-' :: rest => (readDigits rest).map fun (digits, rest) => (some (-digitsValue digits), rest)
      | '+' :: rest => (readDigits rest).map fun (digits, rest) => (some (digitsValue digits), rest)
      | rest => (readDigits rest).map fun (digits, rest) => (some (digitsValue digits), rest)
    else some (none, e :: rest)
  | [] => some (none, [])

/-- The number with the given parts. Without a fraction and an exponent it is whole, unless it is
`-0` or has too many digits for a whole number of a document. -/
def numberOfParts (negative : Bool) (integer : List Char) (fraction : Option (List Char))
    (exponent : Option Int) : Json :=
  let whole : Int := if negative then -digitsValue integer else digitsValue integer
  if fraction.isNone ∧ exponent.isNone ∧ Fits whole ∧ ¬ (negative ∧ whole = 0) then .whole whole
  else
    let x := (Decimal.ofDigits integer (fraction.getD []) (exponent.getD 0)).scaled
    if x.isFinite then .real (if negative then -x else x) else .unreadable

def readNumber (input : List Char) : Option (Json × List Char) := do
  let (negative, input) := match input with
    | '-' :: rest => (true, rest)
    | input => (false, input)
  let (integer, input) ← readIntegerPart input
  let (fraction, input) ← readFraction input
  let (exponent, input) ← readExponent input
  return (numberOfParts negative integer fraction exponent, input)

/-! ## Values without parts -/

/-- A value that is no array and no object. -/
def readSimple (input : List Char) : Option (Json × List Char) :=
  match input with
  | 'n' :: 'u' :: 'l' :: 'l' :: rest => some (.null, rest)
  | 't' :: 'r' :: 'u' :: 'e' :: rest => some (.bool true, rest)
  | 'f' :: 'a' :: 'l' :: 's' :: 'e' :: rest => some (.bool false, rest)
  | '"' :: rest => (unquote rest).map fun (s, rest) => ((s.map Json.text).getD .unreadable, rest)
  | input => readNumber input

/-- The name of a member, if there is such a text, and the colon after it. -/
def readName (input : List Char) : Option (Option String × List Char) :=
  match skipBlanks input with
  | '"' :: rest => do
    let (name, rest) ← unquote rest
    match skipBlanks rest with
    | ':' :: rest => return (name, rest)
    | _ => none
  | _ => none

/-! ## Values that are too deep -/

inductive Bracket where
  /-- that of an array -/
  | square
  /-- that of an object -/
  | curly

def Bracket.close : Bracket → Char
  | .square => ']'
  | .curly => '\x7d'

/-- What follows the name of the next member inside a bracket; items of arrays have no names. -/
def Bracket.skipName : Bracket → List Char → Option (List Char)
  | .square, input => some input
  | .curly, input => (readName input).map (·.2)

/-- What follows when all of some brackets, the innermost first, have been closed. With `due` the next
item, or the value of the next member, is still to come; without it the last one has been read. At most
`steps` steps are made, each of which takes a character or ends. -/
def skipOpen : (steps : Nat) → (due : Bool) → List Bracket → List Char → Option (List Char)
  | 0, _, _, _ => none
  | steps + 1, true, brackets, input =>
    match skipBlanks input with
    | '[' :: rest =>
      match skipBlanks rest with
      | ']' :: rest => skipOpen steps false brackets rest
      | rest => skipOpen steps true (.square :: brackets) rest
    | '\x7b' :: rest =>
      match skipBlanks rest with
      | '\x7d' :: rest => skipOpen steps false brackets rest
      | rest =>
        match Bracket.curly.skipName rest with
        | some rest => skipOpen steps true (.curly :: brackets) rest
        | none => none
    | rest =>
      match readSimple rest with
      | some (_, rest) => skipOpen steps false brackets rest
      | none => none
  | _ + 1, false, [], input => some input
  | steps + 1, false, bracket :: brackets, input =>
    match skipBlanks input with
    | ',' :: rest =>
      match bracket.skipName rest with
      | some rest => skipOpen steps true (bracket :: brackets) rest
      | none => none
    | c :: rest => if c = bracket.close then skipOpen steps false brackets rest else none
    | [] => none

/-- An array or an object that is too deep. -/
def readTooDeep (room : Nat) (input : List Char) : Option (Json × List Char) :=
  (skipOpen (room + 1) true [] input).map fun rest => (.unreadable, rest)

/-! ## Values -/

section
variable (value : List Char → Option (Json × List Char))

/-- The items of an array after its first one, up to the closing bracket, read by `value`. At most
`room` items are read. -/
def readItems : Nat → List Char → Option (List Json × List Char)
  | 0, _ => none
  | room + 1, input => do
    let (item, input) ← value input
    match skipBlanks input with
    | ']' :: rest => return ([item], rest)
    | ',' :: rest =>
      let (items, rest) ← readItems room rest
      return (item :: items, rest)
    | _ => none

/-- The members of an object up to the closing brace, their values read by `value`. At most `room`
members are read. -/
def readMembers : Nat → List Char → Option (List (Option String × Json) × List Char)
  | 0, _ => none
  | room + 1, input => do
    let (name, input) ← readName input
    let (item, input) ← value input
    match skipBlanks input with
    | '\x7d' :: rest => return ([(name, item)], rest)
    | ',' :: rest =>
      let (members, rest) ← readMembers room rest
      return ((name, item) :: members, rest)
    | _ => none

end

/-- The object with the given members; without a text for one of their names there is none. -/
def objectOf (members : List (Option String × Json)) : Json :=
  match members.mapM fun (name, item) => name.map fun name => (name, item) with
  | some members => .object members
  | none => .unreadable

/-- A value of which at most `depth` levels of arrays and objects are built, each with at most `room`
items or members. -/
def readValue (room : Nat) : (depth : Nat) → List Char → Option (Json × List Char)
  | 0, input =>
    match skipBlanks input with
    | '[' :: _ | '\x7b' :: _ => readTooDeep room input
    | rest => readSimple rest
  | depth + 1, input =>
    match skipBlanks input with
    | '[' :: rest =>
      match skipBlanks rest with
      | ']' :: rest => some (.array [], rest)
      | rest => (readItems (readValue room depth) room rest).map fun (items, rest) =>
        (.array items, rest)
    | '\x7b' :: rest =>
      match skipBlanks rest with
      | '\x7d' :: rest => some (.object [], rest)
      | rest => (readMembers (readValue room depth) room rest).map fun (members, rest) =>
        (objectOf members, rest)
    | rest => readSimple rest

/-- How many arrays and objects may stand inside one another in a value that is read. -/
def deepest : Nat := 127

/-- The value that a text holds, of which at most `depth` levels are built. -/
def parseWithin? (depth : Nat) (s : String) : Option Json :=
  match readValue s.length depth s.toList with
  | some (j, rest) => if skipBlanks rest = [] then some j else none
  | none => none

/-- The value that a document holds. -/
def parse? (s : String) : Option Json :=
  parseWithin? deepest s

end Formulary.Json
