import Mathlib.Data.List.Induction
import Formulary.Expr.Value

/-!
# Contexts from arguments

Arguments can be offered to a context, the first of each role winning, or set, the last one winning. Role by role both
are a search in the list, from one end (`held_offerAll`) or from the other (`held_setAll`); what offers add to the log
is told from the list as well (`events_offerAll`).
-/

namespace Formulary.Context

/-! ## What is held in a role -/

def held (ctx : Context) : Role → Option Argument
  | .character => ctx.character.map .character
  | .characterData => ctx.characterData.map .characterData
  | .ability => ctx.ability.map .ability

theorem holds_eq_isSome_held (ctx : Context) (role : Role) : ctx.holds role = (ctx.held role).isSome := by
  cases role <;> simp [holds, held]

@[simp] theorem held_empty (role : Role) : empty.held role = none := by
  cases role <;> rfl

/-- A context is what it holds in its roles, and its extra values. -/
theorem ext_held {ctx ctx' : Context} (hroles : ∀ role, ctx.held role = ctx'.held role)
    (hextras : ctx.extras = ctx'.extras) : ctx = ctx' := by
  have hcharacter : ctx.character = ctx'.character :=
    Option.map_injective (fun _ _ => Argument.character.inj) (hroles .character)
  have hdata : ctx.characterData = ctx'.characterData :=
    Option.map_injective (fun _ _ => Argument.characterData.inj) (hroles .characterData)
  have hability : ctx.ability = ctx'.ability :=
    Option.map_injective (fun _ _ => Argument.ability.inj) (hroles .ability)
  cases ctx
  cases ctx'
  simp_all

@[simp] theorem held_set (ctx : Context) (a : Argument) (role : Role) :
    (ctx.set a).held role = if a.role = role then some a else ctx.held role := by
  cases a <;> cases role <;> rfl

@[simp] theorem extras_set (ctx : Context) (a : Argument) : (ctx.set a).extras = ctx.extras := by
  cases a <;> rfl

/-! ## Offers, the first of a role winning -/

theorem value_offer (ctx : Context) (a : Argument) :
    (ctx.offer a).value = if ctx.holds a.role then ctx else ctx.set a := by
  unfold offer
  split <;> rfl

theorem events_offer (ctx : Context) (a : Argument) :
    (ctx.offer a).events = if ctx.holds a.role then [.argumentIgnored a.role] else [] := by
  unfold offer
  split <;> rfl

/-- What is held in a role stays there. -/
theorem held_offer (ctx : Context) (a : Argument) (role : Role) :
    (ctx.offer a).value.held role = (ctx.held role).or (if a.role = role then some a else none) := by
  rw [value_offer]
  by_cases hrole : a.role = role
  · subst hrole
    cases hheld : ctx.held a.role with
    | none => simp [holds_eq_isSome_held, hheld]
    | some b => simp [holds_eq_isSome_held, hheld]
  · rw [if_neg hrole, Option.or_none]
    split
    · rfl
    · simp [hrole]

theorem extras_offer (ctx : Context) (a : Argument) : (ctx.offer a).value.extras = ctx.extras := by
  rw [value_offer]
  split <;> simp

/-- After any offers a role holds what it held before, or the first argument of that role. -/
theorem held_offerAll (ctx : Context) (arguments : List Argument) (role : Role) :
    (ctx.offerAll arguments).value.held role = (ctx.held role).or (arguments.find? (·.role = role)) := by
  induction arguments generalizing ctx with
  | nil => simp [offerAll]
  | cons a rest ih =>
    rw [offerAll, Traced.value_bind, ih, held_offer, Option.or_assoc]
    by_cases hrole : a.role = role
    · simp [hrole]
    · simp [hrole]

theorem extras_offerAll (ctx : Context) (arguments : List Argument) :
    (ctx.offerAll arguments).value.extras = ctx.extras := by
  induction arguments generalizing ctx with
  | nil => rfl
  | cons a rest ih => rw [offerAll, Traced.value_bind, ih, extras_offer]

/-! ## Settings, the last of a role winning -/

/-- The context with some arguments set, one after the other. -/
def setAll (ctx : Context) (arguments : List Argument) : Context :=
  arguments.foldl set ctx

/-- After any settings a role holds the last argument of that role, or what it held before. -/
theorem held_setAll (ctx : Context) (arguments : List Argument) (role : Role) :
    (ctx.setAll arguments).held role = (arguments.reverse.find? (·.role = role)).or (ctx.held role) := by
  induction arguments generalizing ctx with
  | nil => rfl
  | cons a rest ih =>
    rw [setAll, List.foldl_cons, ← setAll, ih, List.reverse_cons, List.find?_append, Option.or_assoc]
    by_cases hrole : a.role = role
    · simp [hrole]
    · simp [hrole]

theorem extras_setAll (ctx : Context) (arguments : List Argument) : (ctx.setAll arguments).extras = ctx.extras := by
  induction arguments generalizing ctx with
  | nil => rfl
  | cons a rest ih => rw [setAll, List.foldl_cons, ← setAll, ih, extras_set]

/-! ## The log of offers -/

/-- The arguments that come after the first of their role, in order. -/
def repeated (arguments : List Argument) : List Argument :=
  (arguments.zipIdx.filter fun x => (arguments.take x.2).any (·.role = x.1.role)).map (·.1)

theorem repeated_concat (arguments : List Argument) (a : Argument) :
    repeated (arguments ++ [a]) =
      repeated arguments ++ if arguments.any (·.role = a.role) then [a] else [] := by
  have hbefore : ∀ x ∈ arguments.zipIdx, (arguments ++ [a]).take x.2 = arguments.take x.2 := by
    intro x hx
    have hlt : x.2 < arguments.length := List.snd_lt_of_mem_zipIdx hx
    exact List.take_append_of_le_length (Nat.le_of_lt hlt)
  have hfilter : (arguments.zipIdx.filter fun x => ((arguments ++ [a]).take x.2).any (·.role = x.1.role)) =
      arguments.zipIdx.filter fun x => (arguments.take x.2).any (·.role = x.1.role) := by
    refine List.filter_congr ?_
    intro x hx
    rw [hbefore x hx]
  rw [repeated, List.zipIdx_append, List.filter_append, List.map_append, hfilter]
  by_cases ha : arguments.any (·.role = a.role) = true
  · simp [repeated, ha]
  · simp [repeated, ha]

theorem events_offerAll_concat (ctx : Context) (arguments : List Argument) (a : Argument) :
    (ctx.offerAll (arguments ++ [a])).events =
      (ctx.offerAll arguments).events ++ ((ctx.offerAll arguments).value.offer a).events := by
  induction arguments generalizing ctx with
  | nil => simp [offerAll]
  | cons b rest ih => simp [offerAll, ih]

/-- Each argument that is not the first of its role is reported once, in order. -/
theorem events_offerAll (arguments : List Argument) :
    (empty.offerAll arguments).events = (repeated arguments).map fun a => .argumentIgnored a.role := by
  induction arguments using List.reverseRecOn with
  | nil => rfl
  | append_singleton arguments a ih =>
    have hholds : (empty.offerAll arguments).value.holds a.role = arguments.any (·.role = a.role) := by
      simp [holds_eq_isSome_held, held_offerAll, List.isSome_find?]
    rw [events_offerAll_concat, ih, events_offer, hholds, repeated_concat, List.map_append]
    split <;> rfl

/-! ## Mirror images -/

theorem value_ofArguments (arguments : List Argument) :
    (ofArguments arguments).value = empty.setAll arguments.reverse := by
  refine ext_held ?_ ?_
  · intro role
    simp [ofArguments, held_offerAll, held_setAll]
  · simp [ofArguments, extras_offerAll, extras_setAll]

/-- Only the order of arguments of one role matters. -/
theorem value_ofArguments_congr {arguments others : List Argument}
    (h : ∀ role, others.filter (·.role = role) = arguments.filter (·.role = role)) :
    (ofArguments others).value = (ofArguments arguments).value := by
  refine ext_held ?_ ?_
  · intro role
    rw [ofArguments, ofArguments, held_offerAll, held_offerAll, ← List.head?_filter, ← List.head?_filter, h role]
  · rw [ofArguments, ofArguments, extras_offerAll, extras_offerAll]

/-- **First wins and last wins are mirror images.** Arguments of which the first of each role wins make the context
that the same arguments make in reverse if the last wins, and any other order of them that keeps those of one role in
order makes it too, both ways. Each role holds the first argument that has it, and each other argument leaves one event
in the log, in order and with its role, and there are no others. All of these contexts are one for whatever is evaluated
in them. -/
theorem ofArguments_mirror (arguments : List Argument) :
    let first := ofArguments arguments
    first.value = empty.setAll arguments.reverse ∧
      (∀ role, first.value.held role = arguments.find? (·.role = role)) ∧
      first.events = (repeated arguments).map (fun a => .argumentIgnored a.role) ∧
      first.events.map (fun event => (event.level, event.message, event.fields)) =
        (repeated arguments).map (fun a =>
          (.debug, "ignoring duplicate context argument", [("kind", .text a.role.name)])) ∧
      ∀ others : List Argument, (∀ role, others.filter (·.role = role) = arguments.filter (·.role = role)) →
        (ofArguments others).value = first.value ∧ empty.setAll others.reverse = first.value ∧
        ∀ e, Expr.evaluate (ofArguments others).value e = Expr.evaluate first.value e ∧
          Expr.evaluate (empty.setAll others.reverse) e = Expr.evaluate first.value e := by
  intro first
  have hevents : first.events = (repeated arguments).map (fun a => .argumentIgnored a.role) :=
    events_offerAll arguments
  refine ⟨value_ofArguments arguments, ?_, hevents, ?_, ?_⟩
  · intro role
    rw [show first = empty.offerAll arguments from rfl, held_offerAll, held_empty, Option.none_or]
  · rw [hevents, List.map_map]
    rfl
  · intro others hothers
    have hvalue : (ofArguments others).value = first.value := value_ofArguments_congr hothers
    have hset : empty.setAll others.reverse = first.value := by rw [← value_ofArguments, hvalue]
    refine ⟨hvalue, hset, ?_⟩
    intro e
    rw [hvalue, hset]
    exact ⟨rfl, rfl⟩

/-- A beast, with its pack and two attacks. -/
def wolf : Argument :=
  .character (Character.sheet { data := .ofLists "wolf" [(⟨"STR"⟩, 4)] [] })

def pack : Argument :=
  .characterData (CharacterData.toCoreStats (.ofLists "pack" [(⟨"STR"⟩, 9)] []))

def bite : Argument :=
  .ability { id := ⟨"bite"⟩ }

def claw : Argument :=
  .ability { id := ⟨"claw"⟩ }

def beastly : List Argument :=
  [bite, wolf, claw, pack]

/-- The beast may come before its attacks, but not the one attack before the other. -/
theorem ofArguments_mirror_beastly :
    let others : List Argument := [pack, wolf, bite, claw]
    (ofArguments others).value = (ofArguments beastly).value ∧
      empty.setAll others.reverse = (ofArguments beastly).value ∧
      (ofArguments beastly).events = [.argumentIgnored .ability] ∧
      (ofArguments beastly).events.map Event.level = [.debug] ∧
      (ofArguments beastly).value.held .character = some wolf ∧
      (ofArguments beastly).value.held .characterData = some pack ∧
      (ofArguments beastly).value.held .ability = some bite ∧
      (ofArguments beastly).value.coreStat? ⟨"STR"⟩ = some 4 := by
  intro others
  obtain ⟨-, hheld, hevents, -, hothers⟩ := ofArguments_mirror beastly
  have hsame : ∀ role, others.filter (·.role = role) = beastly.filter (·.role = role) := by
    intro role
    cases role <;> rfl
  obtain ⟨hvalue, hset, -⟩ := hothers others hsame
  exact ⟨hvalue, hset, hevents, by rw [hevents]; rfl, hheld .character, hheld .characterData, hheld .ability,
    by decide⟩

end Formulary.Context
