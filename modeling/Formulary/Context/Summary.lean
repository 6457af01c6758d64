import Formulary.Context.Basic
import Formulary.Decimal.Style
import Formulary.Text.Printable

/-!
# Summaries of contexts

The one-line summary of a context that shows up when a game is debugged: which roles are filled, the
id of the ability, and the extra values with their types.
-/

namespace Formulary

/-- A character as it stands in a quoted text of a summary. -/
def summaryChar (c : Char) : List Char :=
  if c.toNat = 0 then ['\\', '0']
  else if c = '\t' then ['\\', 't']
  else if c = '\r' then ['\\', 'r']
  else if c = '\n' then ['\\', 'n']
  else if c = '\\' then ['\\', '\\']
  else if c = '"' then ['\\', '"']
  else if isPrintable c then [c]
  else ['\\', 'u', '\x7b'] ++ Nat.toDigits 16 c.toNat ++ ['\x7d']

/-- A text in quotation marks, as a summary shows it. -/
def summaryText (s : String) : String :=
  "\"" ++ String.ofList (s.toList.flatMap summaryChar) ++ "\""

namespace Json

mutual

/-- A value as a summary shows it, with its type. -/
def summary : Json → String
  | .null | .unreadable => "Null"
  | .bool true => "Bool(true)"
  | .bool false => "Bool(false)"
  | .whole n => "Number(" ++ toString n ++ ")"
  | .real x => "Number(" ++ String.ofList (Style.document.finiteChars x) ++ ")"
  | .text s => "String(" ++ summaryText s ++ ")"
  | .array items => "Array [" ++ ", ".intercalate (itemSummaries items) ++ "]"
  | .object members => "Object \x7b" ++ ", ".intercalate (memberSummaries members) ++ "\x7d"

def itemSummaries : List Json → List String
  | [] => []
  | item :: items => summary item :: itemSummaries items

def memberSummaries : List (String × Json) → List String
  | [] => []
  | (name, item) :: members => (summaryText name ++ ": " ++ summary item) :: memberSummaries members

end

end Json

def Context.summary (ctx : Context) : String :=
  let ability := match ctx.ability with
    | some a => "Some(" ++ summaryText a.id.name ++ ")"
    | none => "None"
  "EvalContext \x7b character: " ++ toString ctx.character.isSome ++
    ", character_data: " ++ toString ctx.characterData.isSome ++ ", ability: " ++ ability ++
    ", data: \x7b" ++ ", ".intercalate (Json.memberSummaries ctx.extras.entries) ++ "\x7d \x7d"

end Formulary
