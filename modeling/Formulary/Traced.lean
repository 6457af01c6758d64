import Formulary.Event

/-!
# Values with their events

`Traced α` is a value of type `α` together with what happened while it was computed, in order.
Computing one thing after another joins their events (`Traced.events_bind`).
-/

namespace Formulary

/-- A value, and what happened while it was computed. -/
structure Traced (α : Type) where
  value : α
  events : List Event := []

namespace Traced

instance : Monad Traced where
  pure a := ⟨a, []⟩
  bind t f := ⟨(f t.value).value, t.events ++ (f t.value).events⟩

variable {α β : Type}

@[simp] theorem value_pure (a : α) : (pure a : Traced α).value = a := rfl

@[simp] theorem events_pure (a : α) : (pure a : Traced α).events = [] := rfl

@[simp] theorem value_bind (t : Traced α) (f : α → Traced β) :
    (t >>= f).value = (f t.value).value := rfl

@[simp] theorem events_bind (t : Traced α) (f : α → Traced β) :
    (t >>= f).events = t.events ++ (f t.value).events := rfl

@[simp] theorem value_map (f : α → β) (t : Traced α) : (f <$> t).value = f t.value := rfl

@[simp] theorem events_map (f : α → β) (t : Traced α) : (f <$> t).events = t.events :=
  List.append_nil _

/-- A value whose computation is marked by one event. -/
def log (event : Event) : Traced Unit := ⟨(), [event]⟩

end Traced

end Formulary
