import Formulary.Context.Basic
import Formulary.Document.Basic

/-!
# Extra values of a context

A game can keep values of its own in a context, each under a key. A value is kept in its document
form and can be read back as any type that the form spells. What has no document form is not kept.
-/

namespace Formulary.Context
variable {α : Type} [Document α]

/-- The context with a value kept under a key, whatever was kept there before. -/
def keep (ctx : Context) (key : String) (value : Option Json) : Context :=
  match value with
  | some j => { ctx with extras := ctx.extras.insert key j.canonical }
  | none => ctx

/-- The context with the document form of `a` kept under a key. -/
def put (ctx : Context) (key : String) (a : α) : Context :=
  ctx.keep key (some (Document.toJson a))

/-- The value kept under a key, read as one of type `α`. -/
def get? (α : Type) [Document α] (ctx : Context) (key : String) : Option α :=
  (ctx.extras.get? key).bind Document.ofJson?

def contains (ctx : Context) (key : String) : Bool :=
  ctx.extras.contains key

end Formulary.Context
