import Formulary.Json.Basic

/-!
# Records

A record is written as an object, and read either from an object or from an array that lists the
parts of the record in their order. In an object a part that the record knows must not stand twice,
and members that it does not know are ignored, readable or not. In an array parts may be left out only
at the end, and nothing may stand beyond the last part.
-/

namespace Formulary

/-- The parts of a record as they are written, by name. -/
structure Record where
  /-- Whether the record is written as an array. -/
  positional : Bool
  members : List (String × Json)

namespace Record

/-- The record written as an object with the given members, `names` being the parts it knows. -/
def ofMembers? (names : List String) (members : List (String × Json)) : Option Record :=
  if ∀ name ∈ names, members.countP (·.1 = name) ≤ 1 then some ⟨false, members⟩ else none

/-- The record written as an array with the given items, `names` being its parts in order. -/
def ofItems? (names : List String) (items : List Json) : Option Record :=
  if items.length ≤ names.length then some ⟨true, names.zip items⟩ else none

def ofJson? (names : List String) : Json → Option Record
  | .object members => ofMembers? names members
  | .array items => ofItems? names items
  | _ => none

variable {α : Type} (r : Record)

def get? (name : String) : Option Json :=
  (r.members.find? (·.1 = name)).map (·.2)

def required (name : String) (read : Json → Option α) : Option α :=
  (r.get? name).bind read

/-- A part that counts as `default` if it is not there. -/
def withDefault (name : String) (default : α) (read : Json → Option α) : Option α :=
  match r.get? name with
  | some j => read j
  | none => some default

/-- A part that is an operand of a node; `read` reads what may be absent. -/
def operand (name : String) (read : Json → Option (Option α)) : Option (Option α) :=
  match r.get? name with
  | some j => read j
  | none => if r.positional then none else some none

end Record

end Formulary
