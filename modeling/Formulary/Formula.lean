import Formulary.Document.Expr
import Formulary.Expr.Value

/-!
# Formulas

A formula is a name and a list of expressions. All of them are evaluated, in order and in the same
context, and the value of the last one is the value of the formula. A formula can also be evaluated
with a breakdown that keeps the text and the value of every expression.
-/

namespace Formulary

/-- A named list of expressions. -/
structure Formula where
  name : String
  expressions : List Expr := []

instance : BEq Formula := ⟨fun f g => f.name = g.name && f.expressions == g.expressions⟩

/-- The value of a formula with the steps that led to it. -/
structure Evaluation where
  formula : String
  value : Float := 0
  /-- Each evaluated expression, as text, with its value. -/
  steps : List (String × Float) := []

/-- An evaluation with one more step, whose value becomes the value of the evaluation. -/
def Evaluation.push (e : Evaluation) (text : String) (value : Float) : Evaluation :=
  { e with value := value, steps := e.steps ++ [(text, value)] }

namespace Formula

/-- Evaluates expressions in order, `last` being the value so far. -/
def run (ctx : Context) : (last : Float) → List Expr → Traced Float
  | last, [] => pure last
  | _, e :: rest => do run ctx (← e.evaluate ctx) rest

def evaluate (f : Formula) (ctx : Context) : Traced Float := do
  let value ← run ctx 0 f.expressions
  Traced.log (.formulaEvaluated f.name value)
  return value

/-- Evaluates expressions in order, pushing each onto a breakdown. -/
def runDetailed (ctx : Context) : Evaluation → List Expr → Traced Evaluation
  | evaluation, [] => pure evaluation
  | evaluation, e :: rest => do
    let value ← e.evaluate ctx
    runDetailed ctx (evaluation.push e.display value) rest

def evaluateDetailed (f : Formula) (ctx : Context) : Traced Evaluation :=
  runDetailed ctx ⟨f.name, 0, []⟩ f.expressions

/-- Checks every expression of a formula for operands that are missing. -/
def validate (f : Formula) : Except FormulaError Unit :=
  f.expressions.forM Expr.validate

def toJson (f : Formula) : Json :=
  .object [("name", .text f.name), ("expressions", Document.toJson f.expressions)]

def read? (j : Json) : Option Formula := do
  let r ← Record.ofJson? ["name", "expressions"] j
  let name ← r.required "name" Json.toText?
  let expressions ← r.withDefault "expressions" [] Document.ofJson?
  return ⟨name, expressions⟩

instance : Document Formula := ⟨toJson, read?⟩

end Formula

namespace Evaluation

/-- A step is a pair of a text and a number. -/
def readStep? : Json → Option (String × Float)
  | .array [text, value] => do return (← text.toText?, ← value.toFloat?)
  | _ => none

def toJson (e : Evaluation) : Json :=
  .object [("formula", .text e.formula), ("value", .ofFloat e.value),
    ("steps", .array (e.steps.map fun s => .array [.text s.1, .ofFloat s.2]))]

def read? (j : Json) : Option Evaluation := do
  let r ← Record.ofJson? ["formula", "value", "steps"] j
  let formula ← r.required "formula" Json.toText?
  let value ← r.required "value" Json.toFloat?
  let steps ← r.required "steps" (Json.toList? readStep?)
  return ⟨formula, value, steps⟩

instance : Document Evaluation := ⟨toJson, read?⟩

end Evaluation

end Formulary
