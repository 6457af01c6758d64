import Formulary.Table

/-!
# Values of a document

Whole numbers and doubles are different things here: a number is whole only if it was written as a
whole number. Members of an object keep their order and may repeat a name, because what that means is
for the reader of each record to say.

Some spellings keep to the rules and yet stand for no value (`Json.unreadable`). Only a reader who
needs the value turns them down.
-/

namespace Formulary

inductive Json where
  | null
  | bool (value : Bool)
  | whole (value : Int)
  | real (value : Float)
  | text (value : String)
  | array (items : List Json)
  | object (members : List (String × Json))
  /-- what is spelled by the rules but has no value: text with half of a pair of units, a number beyond
  all doubles, an object with such a name, or arrays and objects too deep inside one another -/
  | unreadable
deriving Inhabited

namespace Json

/-- A double as a document holds it. Documents have no infinities and no NaN; `null` stands there
instead. -/
def ofFloat (x : Float) : Json :=
  if x.isFinite then .real x else .null

/-- Whether a whole number fits the 64 bits, signed or unsigned, that documents have for one. -/
def Fits (n : Int) : Prop :=
  -0x8000000000000000 ≤ n ∧ n ≤ 0xFFFFFFFFFFFFFFFF

instance (n : Int) : Decidable (Fits n) :=
  inferInstanceAs (Decidable (_ ∧ _))

mutual

/-- Whether a value has nothing unreadable inside. -/
def readable : Json → Bool
  | .unreadable => false
  | .array items => readableItems items
  | .object members => readableMembers members
  | _ => true

def readableItems : List Json → Bool
  | [] => true
  | j :: rest => readable j && readableItems rest

def readableMembers : List (String × Json) → Bool
  | [] => true
  | (_, j) :: rest => readable j && readableMembers rest

end

mutual

/-- How many arrays and objects stand inside one another, the value itself included. -/
def nesting : Json → Nat
  | .array items => nestingItems items + 1
  | .object members => nestingMembers members + 1
  | _ => 0

def nestingItems : List Json → Nat
  | [] => 0
  | j :: rest => max (nesting j) (nestingItems rest)

def nestingMembers : List (String × Json) → Nat
  | [] => 0
  | (_, j) :: rest => max (nesting j) (nestingMembers rest)

end

mutual

/-- The value with the members of every object in the order of their names, each name once and with
the value that came last. -/
def canonical : Json → Json
  | .array items => .array (canonicalItems items)
  | .object members => .object (Table.ofList (canonicalMembers members)).entries
  | j => j

def canonicalItems : List Json → List Json
  | [] => []
  | j :: rest => canonical j :: canonicalItems rest

def canonicalMembers : List (String × Json) → List (String × Json)
  | [] => []
  | (name, j) :: rest => (name, canonical j) :: canonicalMembers rest

end

end Json

end Formulary
