import Formulary.Error
import Formulary.Id
import Formulary.Json.Reader
import Formulary.Json.Writer

/-!
# Documents

A type of values that documents can hold says how its values are written and how they are read. One
value may be read from several spellings; it is written in one. Numbers, text, lists and tables are
here; records have rules of their own, in `Document.Record`.
-/

namespace Formulary

/-- Types whose values are written to documents and read from them. -/
class Document (α : Type) where
  toJson : α → Json
  ofJson? : Json → Option α

namespace Document
variable {α : Type} [Document α]

/-- The value that a text holds. -/
def parse (s : String) : Except FormulaError α :=
  match (Json.parse? s).bind ofJson? with
  | some a => .ok a
  | none => .error .malformed

/-- The text of a value, on one line. -/
def text (a : α) : String :=
  (toJson a).render .compact

end Document

/-! ## Numbers and text -/

namespace Json

/-- A number, whole or not. -/
def toFloat? : Json → Option Float
  | .real x => some x
  | .whole n => some (.ofInt n)
  | _ => none

def toText? : Json → Option String
  | .text s => some s
  | _ => none

def toBool? : Json → Option Bool
  | .bool b => some b
  | _ => none

/-- A whole number that a type of limited range has. -/
def toRange? {α : Type} (ofInt : Int → α) (toInt : α → Int) : Json → Option α
  | .whole n => if toInt (ofInt n) = n then some (ofInt n) else none
  | _ => none

/-- A list of what `read` reads. -/
def toList? {α : Type} (read : Json → Option α) : Json → Option (List α)
  | .array items => items.mapM read
  | _ => none

/-- What `read` reads, or nothing where `null` stands. -/
def toOption? {α : Type} (read : Json → Option α) : Json → Option (Option α)
  | .null => some none
  | j => (read j).map some

end Json

instance : Document Float := ⟨Json.ofFloat, Json.toFloat?⟩
instance : Document String := ⟨.text, Json.toText?⟩
instance : Document Bool := ⟨.bool, Json.toBool?⟩
instance : Document Int32 := ⟨fun n => .whole n.toInt, Json.toRange? .ofInt Int32.toInt⟩
instance : Document Int64 := ⟨fun n => .whole n.toInt, Json.toRange? .ofInt Int64.toInt⟩

instance : Document UInt8 :=
  ⟨fun n => .whole n.toNat, Json.toRange? (fun n => .ofNat n.toNat) fun n => n.toNat⟩

instance : Document UInt32 :=
  ⟨fun n => .whole n.toNat, Json.toRange? (fun n => .ofNat n.toNat) fun n => n.toNat⟩

instance : Document UInt64 :=
  ⟨fun n => .whole n.toNat, Json.toRange? (fun n => .ofNat n.toNat) fun n => n.toNat⟩

instance {k : IdKind} : Document (Id k) :=
  ⟨fun i => .text i.name, fun j => j.toText?.map Id.mk⟩

/-! ## Lists and tables -/

section
variable {α : Type} [Document α]

instance : Document (List α) :=
  ⟨fun xs => .array (xs.map Document.toJson), Json.toList? Document.ofJson?⟩

instance : Document (Option α) :=
  ⟨fun x => (x.map Document.toJson).getD .null, Json.toOption? Document.ofJson?⟩

def Document.member? {k : IdKind} (m : String × Json) : Option (Id k × α) :=
  (ofJson? m.2).map fun a => (⟨m.1⟩, a)

/-- A table is an object. Of members with one name the last counts. -/
instance {k : IdKind} : Document (Table (Id k) α) where
  toJson t := .object (t.entries.map fun x => (x.1.name, Document.toJson x.2))
  ofJson?
    | .object members => (members.mapM Document.member?).map Table.ofList
    | _ => none

end

end Formulary
