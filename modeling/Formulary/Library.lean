import Formulary.Formula
import Formulary.Table

/-!
# Libraries

A library holds the formulas of a game, each under its own name and no two under one name. It is
saved as a document that lists them in the order of their names.
-/

namespace Formulary

/-- The formulas of a game, by name. -/
structure Library where
  formulas : Table String Formula := ∅

instance : BEq Library := ⟨fun l m => l.formulas == m.formulas⟩

namespace Library

def empty : Library := {}

def get? (l : Library) (name : String) : Option Formula :=
  l.formulas.get? name

/-- The formula of a name, which has to be there. -/
def require (l : Library) (name : String) : Except FormulaError Formula :=
  match l.get? name with
  | some f => .ok f
  | none => .error (.missingFormula name)

def names (l : Library) : List String :=
  l.formulas.keys

def size (l : Library) : Nat :=
  l.formulas.size

/-- Adds a formula, whose name has to be new. -/
def insert (l : Library) (f : Formula) : Except FormulaError Unit × Library :=
  if l.formulas.contains f.name then (.error (.duplicateFormula f.name), l)
  else (.ok (), ⟨l.formulas.insert f.name f⟩)

/-- The library with some more formulas. The first one whose name is not new ends it. -/
def insertAll : Library → List Formula → Except FormulaError Library
  | l, [] => .ok l
  | l, f :: rest =>
    match l.insert f with
    | (.ok _, m) => insertAll m rest
    | (.error e, _) => .error e

/-- The value of the formula of a name. A formula that is not there counts as zero. -/
def evaluate (l : Library) (name : String) (ctx : Context) : Traced Float :=
  match l.get? name with
  | some f => f.evaluate ctx
  | none => do
    Traced.log (.formulaMissing name)
    return 0

/-- Checks every formula, in the order of names, for operands that are missing. -/
def validate (l : Library) : Except FormulaError Unit :=
  l.formulas.values.forM Formula.validate

/-! ## Documents -/

/-- The formulas that a value lists. -/
def readFormulas? (j : Json) : Option (List Formula) := do
  let r ← Record.ofJson? ["formulas"] j
  r.withDefault "formulas" [] Document.ofJson?

/-- The library that a text holds. Names are compared only once the whole text has been read. -/
def parse (s : String) : Except FormulaError Library :=
  match (Json.parse? s).bind readFormulas? with
  | some formulas => insertAll empty formulas
  | none => .error .malformed

def toJson (l : Library) : Json :=
  .object [("formulas", .array (l.formulas.values.map Formula.toJson))]

/-- The text of a library, one part to a line. -/
def text (l : Library) : String :=
  l.toJson.render .indented

end Library

end Formulary
