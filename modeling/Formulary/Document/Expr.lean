import Formulary.Document.DerivedStat
import Formulary.Expr.Basic

/-!
# Expressions in documents

A node is written as an object that names its kind and then gives its operands. It is read from an
object in which `kind` may stand anywhere, or from an array that begins with the kind. The reader of one
node, `Expr.readNode`, is given the reader of the nodes below it; the nesting of a value bounds the
recursion.
-/

namespace Formulary

/-- The parts of a node besides its kind, in their order. -/
def Kind.parts : Kind → List String
  | .constant => ["value"]
  | .euler | .mastery => []
  | .chain _ => ["values"]
  | .power => ["base", "exponent"]
  | .exponential => ["power"]
  | .logarithmic => ["base", "power"]
  | .clamp => ["value", "min", "max"]
  | .extremum _ => ["expressions"]
  | .coreStat | .derivedStat => ["stat"]

/-- A kind is written as its name. Inside a node it may also be read from its number. -/
def Kind.read? (place : Place) : Json → Option Kind
  | .text s => ofName? s
  | .whole n => if place = .inner ∧ 0 ≤ n then all[n.toNat]? else none
  | _ => none

namespace Expr

/-! ## Writing -/

def nodeJson (kind : Kind) (parts : List (String × Json)) : Json :=
  .object (("kind", .text kind.name) :: parts)

mutual

def toJson : Expr → Json
  | .constant x => nodeJson .constant [("value", .ofFloat x)]
  | .euler => nodeJson .euler []
  | .chain op xs => nodeJson (.chain op) [("values", .array (slotsJson xs))]
  | .extremum side xs => nodeJson (.extremum side) [("expressions", .array (slotsJson xs))]
  | .power a b => nodeJson .power [("base", slotJson a), ("exponent", slotJson b)]
  | .exponential a => nodeJson .exponential [("power", slotJson a)]
  | .logarithmic a b => nodeJson .logarithmic [("base", slotJson a), ("power", slotJson b)]
  | .clamp a b c =>
    nodeJson .clamp [("value", slotJson a), ("min", slotJson b), ("max", slotJson c)]
  | .coreStat stat => nodeJson .coreStat [("stat", Document.toJson stat)]
  | .derivedStat stat => nodeJson .derivedStat [("stat", stat.toJson)]
  | .mastery => nodeJson .mastery []

def slotJson : Option Expr → Json
  | none => .null
  | some e => toJson e

def slotsJson : List (Option Expr) → List Json
  | [] => []
  | x :: xs => slotJson x :: slotsJson xs

end

/-! ## Reading -/

/-- The node of a kind with the given parts; `read` reads the nodes below it. -/
def ofRecord? (read : Json → Option Expr) (r : Record) : Kind → Option Expr
  | .constant => Expr.constant <$> r.required "value" Json.toFloat?
  | .euler => some .euler
  | .chain op => Expr.chain op <$> r.withDefault "values" [] (Json.toList? (Json.toOption? read))
  | .extremum side =>
    Expr.extremum side <$> r.withDefault "expressions" [] (Json.toList? (Json.toOption? read))
  | .power => do
    let base ← r.operand "base" (Json.toOption? read)
    let exponent ← r.operand "exponent" (Json.toOption? read)
    return .power base exponent
  | .exponential => Expr.exponential <$> r.operand "power" (Json.toOption? read)
  | .logarithmic => do
    let base ← r.operand "base" (Json.toOption? read)
    let power ← r.operand "power" (Json.toOption? read)
    return .logarithmic base power
  | .clamp => do
    let value ← r.operand "value" (Json.toOption? read)
    let min ← r.operand "min" (Json.toOption? read)
    let max ← r.operand "max" (Json.toOption? read)
    return .clamp value min max
  | .coreStat => Expr.coreStat <$> r.required "stat" Document.ofJson?
  | .derivedStat => Expr.derivedStat <$> r.required "stat" (DerivedStat.read? .inner)
  | .mastery => some .mastery

/-- The node that a value spells; `read` reads the nodes below it. An object has to give the kind
exactly once. -/
def readNode (place : Place) (read : Json → Option Expr) : Json → Option Expr
  | .object members =>
    match members.filter (·.1 = "kind") with
    | [(_, tag)] => do
      let kind ← Kind.read? place tag
      let r ← Record.ofMembers? kind.parts (members.filter (·.1 ≠ "kind"))
      ofRecord? read r kind
    | _ => none
  | .array (tag :: items) => do
    let kind ← Kind.read? place tag
    let r ← Record.ofItems? kind.parts items
    ofRecord? read r kind
  | _ => none

/-- The expression that a value inside a node spells, if it is nested at most `depth` deep. -/
def readWithin : (depth : Nat) → Json → Option Expr
  | 0, _ => none
  | depth + 1, j => readNode .inner (readWithin depth) j

/-- The expression that a value spells. Nothing inside it may be unreadable, not even in members that
no node knows. -/
def read? (j : Json) : Option Expr :=
  if j.readable then readNode .outer (readWithin j.nesting) j else none

end Expr

instance : Document Expr := ⟨Expr.toJson, Expr.read?⟩

end Formulary
