import LinProg.Phase

/-!
# Events

What happens in a solve, in order, and computations that record it. A phase is one event with all
its pivots, so everything that a solve goes through can be found in its events, also when it is
given up. -/

namespace LinProg

/-- Something that happens in a solve. -/
inductive Event (α : Type) where
  /-- The solve of a model starts. -/
  | started (name : String) (varCount constraintCount : Nat)
  /-- There is a slack for each constraint, so phase two comes first. -/
  | phaseOneSkipped
  /-- Phase one starts, with so many artificial variables. -/
  | phaseOneStarted (artificials : Nat)
  /-- A phase, with its number. -/
  | phase (number : Nat) (phase : Phase α)
  /-- Artificial variables are left with this total, which is not zero. -/
  | artificialTotal (total : α)
  /-- An artificial variable that was basic at zero left the basis by way of another column. -/
  | drivenOut (column row replacement : Nat)
  /-- A row with nothing but artificial variables says nothing and was cleared. -/
  | redundantRow (row : Nat)
  /-- The model turned out infeasible. -/
  | infeasible (name : String)
  /-- The model turned out unbounded. -/
  | unbounded (name : String)
  /-- A best point was found, after so many pivots and with this objective value. -/
  | solved (name : String) (iterations : Nat) (objectiveValue : α)

/-- A computation with a result or a failure that records events. -/
structure Recorded (α β : Type) where
  /-- The events, in order. -/
  events : List (Event α)
  /-- The result, or the failure that cut the computation short. -/
  result : Except (Failure α) β

namespace Recorded

variable {α β γ : Type}

/-- Run a computation with the result of another; a failure of the first is that of both. -/
def andThen (first : Recorded α β) (next : β → Recorded α γ) : Recorded α γ :=
  match first.result with
  | .error failure => ⟨first.events, .error failure⟩
  | .ok b =>
    let second := next b
    ⟨first.events ++ second.events, second.result⟩

instance : Monad (Recorded α) where
  pure b := ⟨[], .ok b⟩
  bind := andThen

/-- Record an event. -/
def record (event : Event α) : Recorded α Unit :=
  ⟨[event], .ok ()⟩

/-- Fail with an error. -/
def fail (error : Error) : Recorded α β :=
  ⟨[], .error (.error error)⟩

/-- A computation with a precondition. -/
def guarded (result : Except (Fault α) β) : Recorded α β :=
  ⟨[], result.mapError .fault⟩

/-- A computation with an error to handle. -/
def checked (result : Except Error β) : Recorded α β :=
  ⟨[], result.mapError .error⟩

/-! ## Events and results

The events of a chain are those of its parts, one after the other, up to the first failure; it has
a result when every part has one. -/

@[simp] theorem events_pure (b : β) : (pure b : Recorded α β).events = [] := rfl

@[simp] theorem result_pure (b : β) : (pure b : Recorded α β).result = .ok b := rfl

@[simp] theorem events_record (event : Event α) : (record event).events = [event] := rfl

@[simp] theorem result_record (event : Event α) : (record event).result = .ok () := rfl

@[simp] theorem events_fail (error : Error) : (fail error : Recorded α β).events = [] := rfl

@[simp] theorem result_fail (error : Error) :
    (fail error : Recorded α β).result = .error (.error error) := rfl

@[simp] theorem events_guarded (result : Except (Fault α) β) : (guarded result).events = [] := rfl

@[simp] theorem events_checked (result : Except Error β) :
    (checked result : Recorded α β).events = [] := rfl

theorem result_guarded_eq_ok_iff (result : Except (Fault α) β) (b : β) :
    (guarded result).result = .ok b ↔ result = .ok b := by
  cases result with
  | error fault => exact ⟨nofun, nofun⟩
  | ok x => exact ⟨fun h => by cases h; rfl, fun h => by cases h; rfl⟩

theorem result_checked_eq_ok_iff (result : Except Error β) (b : β) :
    (checked result : Recorded α β).result = .ok b ↔ result = .ok b := by
  cases result with
  | error error => exact ⟨nofun, nofun⟩
  | ok x => exact ⟨fun h => by cases h; rfl, fun h => by cases h; rfl⟩

/-- After a result the next computation's events follow. -/
theorem events_bind_of_ok {first : Recorded α β} (next : β → Recorded α γ) {b : β}
    (h : first.result = .ok b) :
    (first >>= next).events = first.events ++ (next b).events := by
  simp only [bind, andThen, h]

/-- After a failure there are no further events. -/
theorem events_bind_of_error {first : Recorded α β} (next : β → Recorded α γ)
    {failure : Failure α} (h : first.result = .error failure) :
    (first >>= next).events = first.events := by
  simp only [bind, andThen, h]

theorem result_bind_of_ok {first : Recorded α β} (next : β → Recorded α γ) {b : β}
    (h : first.result = .ok b) : (first >>= next).result = (next b).result := by
  simp only [bind, andThen, h]

theorem result_bind_of_error {first : Recorded α β} (next : β → Recorded α γ)
    {failure : Failure α} (h : first.result = .error failure) :
    (first >>= next).result = .error failure := by
  simp only [bind, andThen, h]

/-- Two computations in a row have a result when both have. -/
theorem result_bind_eq_ok_iff (first : Recorded α β) (next : β → Recorded α γ) (c : γ) :
    (first >>= next).result = .ok c ↔
      ∃ b, first.result = .ok b ∧ (next b).result = .ok c := by
  cases h : first.result with
  | error failure => simp [result_bind_of_error next h]
  | ok b => simp [result_bind_of_ok next h]

end Recorded

end LinProg
