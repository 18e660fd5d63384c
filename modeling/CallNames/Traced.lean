import CallNames.Event

/-!
# Results with their events

A computation that reports events yields its result together with them. Computations are put
together as a monad: **the events of a whole are those of its parts, in order**.
-/

namespace CallNames

/-- A result and the events on the way to it. -/
structure Traced (α : Type) where
  value : α
  events : List Event := []
deriving Repr, Inhabited

namespace Traced

variable {α β : Type}

instance : Monad Traced where
  pure a := ⟨a, []⟩
  bind t f :=
    let next := f t.value
    ⟨next.value, t.events ++ next.events⟩

/-- The results of several computations, with the events of all in order. -/
def all (ts : List (Traced α)) : Traced (List α) :=
  ⟨ts.map Traced.value, ts.flatMap Traced.events⟩

@[simp] theorem value_all (ts : List (Traced α)) : (all ts).value = ts.map Traced.value := rfl

@[simp] theorem events_all (ts : List (Traced α)) :
    (all ts).events = ts.flatMap Traced.events := rfl

@[simp] theorem value_pure (a : α) : (pure a : Traced α).value = a := rfl

@[simp] theorem events_pure (a : α) : (pure a : Traced α).events = [] := rfl

@[simp] theorem value_bind (t : Traced α) (f : α → Traced β) :
    (t >>= f).value = (f t.value).value := rfl

@[simp] theorem events_bind (t : Traced α) (f : α → Traced β) :
    (t >>= f).events = t.events ++ (f t.value).events := rfl

instance : LawfulMonad Traced :=
  LawfulMonad.mk' Traced
    (fun _ => by simp [Functor.map])
    (fun _ _ => by simp [Bind.bind, Pure.pure])
    (fun _ _ _ => by simp [Bind.bind, List.append_assoc])

end Traced

end CallNames
