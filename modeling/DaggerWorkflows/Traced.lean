import DaggerWorkflows.Error
import DaggerWorkflows.Event

/-!
# Traced results

An operation gives a result or an error, and in both cases the events that
happened on the way, in their order.
-/

namespace DaggerWorkflows

/-- A result or an error, and the events before it. -/
structure Traced (α : Type) where
  result : Except Error α
  events : List Event
deriving Repr

namespace Traced

variable {α β : Type}

/-- A result without events. -/
def ok (a : α) : Traced α := ⟨.ok a, []⟩

/-- An error without events. -/
def error (e : Error) : Traced α := ⟨.error e, []⟩

/-- An operation without events. -/
def ofExcept (r : Except Error α) : Traced α := ⟨r, []⟩

/-- One event. -/
def tell (e : Event) : Traced Unit := ⟨.ok (), [e]⟩

/-- Several events. -/
def tellAll (es : List Event) : Traced Unit := ⟨.ok (), es⟩

/-- An operation and, if it succeeds, the one that follows. -/
def bind (x : Traced α) (f : α → Traced β) : Traced β :=
  match x.result with
  | .error e => ⟨.error e, x.events⟩
  | .ok a => ⟨(f a).result, x.events ++ (f a).events⟩

instance : Monad Traced where
  pure := ok
  bind := bind

@[simp] theorem pure_eq (a : α) : (pure a : Traced α) = ⟨.ok a, []⟩ := rfl

@[simp] theorem bind_eq (x : Traced α) (f : α → Traced β) :
    x >>= f = x.bind f := rfl

@[simp] theorem result_tell (e : Event) : (tell e).result = .ok () := rfl

@[simp] theorem events_tell (e : Event) : (tell e).events = [e] := rfl

/-- The result of an operation and the one that follows. -/
theorem result_bind (x : Traced α) (f : α → Traced β) :
    (x.bind f).result = x.result.bind fun a => (f a).result := by
  simp only [bind]
  cases x.result <;> rfl

end Traced

end DaggerWorkflows
