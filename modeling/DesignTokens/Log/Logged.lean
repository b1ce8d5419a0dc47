import DesignTokens.Log.Event

/-!
# Values with events

The outcome of a computation that reports events: its value, and the events in the order in which
they were reported.
-/

namespace DesignTokens

/-- A value and the events reported on the way to it. -/
structure Logged (α : Type) where
  /-- The value. -/
  value : α
  /-- The events in order. -/
  events : List Event

namespace Logged

variable {α β : Type}

instance : Monad Logged where
  pure value := ⟨value, []⟩
  bind first next :=
    let second := next first.value
    ⟨second.value, first.events ++ second.events⟩

/-- Report one event. -/
def report (event : Event) : Logged Unit := ⟨(), [event]⟩

@[simp]
theorem pure_value (value : α) : (pure value : Logged α).value = value := rfl

@[simp]
theorem pure_events (value : α) : (pure value : Logged α).events = [] := rfl

@[simp]
theorem bind_value (first : Logged α) (next : α → Logged β) :
    (first >>= next).value = (next first.value).value := rfl

@[simp]
theorem bind_events (first : Logged α) (next : α → Logged β) :
    (first >>= next).events = first.events ++ (next first.value).events := rfl

@[simp]
theorem map_value (f : α → β) (first : Logged α) : (f <$> first).value = f first.value := rfl

@[simp]
theorem map_events (f : α → β) (first : Logged α) : (f <$> first).events = first.events := by
  simp [Functor.map]

@[simp]
theorem report_events (event : Event) : (report event).events = [event] := rfl

@[ext]
theorem ext {first second : Logged α} (value : first.value = second.value)
    (events : first.events = second.events) : first = second := by
  cases first
  cases second
  simp_all

instance : LawfulMonad Logged := by
  refine LawfulMonad.mk' Logged ?_ ?_ ?_
  · intro _ first
    ext1 <;> simp
  · intro _ _ value next
    ext1 <;> simp
  · intro _ _ _ first next last
    ext1 <;> simp [List.append_assoc]

end Logged
end DesignTokens
