import Formulary.DerivedStat.Basic
import Formulary.Document.Basic
import Formulary.Document.Record

/-!
# Derived stats in documents

A derived stat is a record of an id and modifiers, a modifier a record of a stat, a weight and an
operator. Within an expression a few more spellings are understood than outside of one, so reading
takes the place where a value stands.
-/

namespace Formulary

/-- Where in a document a value stands. -/
inductive Place where
  /-- not inside a node of an expression -/
  | outer
  /-- inside a node of an expression -/
  | inner
deriving DecidableEq, Repr

/-- Whether a value says no more than that it is there: `null`, and inside a node also an object
without members. -/
def Place.isUnit : Place → Json → Bool
  | _, .null => true
  | .inner, .object [] => true
  | _, _ => false

namespace Operator

def all : List Operator :=
  [.addition, .subtraction, .multiplication, .division]

def name : Operator → String
  | .addition => "addition"
  | .subtraction => "subtraction"
  | .multiplication => "multiplication"
  | .division => "division"

def ofName? (s : String) : Option Operator :=
  all.find? (·.name = s)

/-- An operator is written as its name, and may be read from an object whose only member has that
name and says nothing more. -/
def read? (place : Place) : Json → Option Operator
  | .text s => ofName? s
  | .object [(s, j)] => if place.isUnit j then ofName? s else none
  | _ => none

end Operator

instance : Document Operator := ⟨fun op => .text op.name, Operator.read? .outer⟩

def Modifier.toJson (m : Modifier) : Json :=
  .object [("stat", Document.toJson m.stat), ("weight", Document.toJson m.weight),
    ("op", Document.toJson m.op)]

def Modifier.read? (place : Place) (j : Json) : Option Modifier := do
  let r ← Record.ofJson? ["stat", "weight", "op"] j
  let stat ← r.required "stat" Document.ofJson?
  let weight ← r.required "weight" Document.ofJson?
  let op ← r.required "op" (Operator.read? place)
  return ⟨stat, weight, op⟩

instance : Document Modifier := ⟨Modifier.toJson, Modifier.read? .outer⟩

def DerivedStat.toJson (d : DerivedStat) : Json :=
  .object [("id", Document.toJson d.id), ("modifiers", Document.toJson d.modifiers)]

def DerivedStat.read? (place : Place) (j : Json) : Option DerivedStat := do
  let r ← Record.ofJson? ["id", "modifiers"] j
  let id ← r.required "id" Document.ofJson?
  let modifiers ← r.withDefault "modifiers" [] (Json.toList? (Modifier.read? place))
  return ⟨id, modifiers⟩

instance : Document DerivedStat := ⟨DerivedStat.toJson, DerivedStat.read? .outer⟩

end Formulary
