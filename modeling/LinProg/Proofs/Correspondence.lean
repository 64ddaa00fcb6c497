import LinProg.Event

/-!
# Computations that correspond

Two runs of one program on different inputs are compared step by step. When a function takes the
states of one run to those of the other, the results of one are the images of the results of the
other, and failures are the same; this passes from the parts of a chain to the whole, and from the
steps of a loop to the loop. Where the results of two runs are only related, they `Agree`.

The events of a recorded computation are no part of its result, so a chain of recorded computations
comes down to the chain of the results. -/

namespace LinProg

/-- A result that is there is the result. -/
theorem eq_ok_of_toOption_eq_some {ε β : Type} {result : Except ε β} {b : β}
    (h : result.toOption = some b) : result = .ok b := by
  cases result with
  | error e => cases h
  | ok c =>
    cases h
    rfl

/-- A loop over corresponding states corresponds to the loop over the states. -/
theorem foldlM_map {β γ δ ε : Type} {f : β → γ} {step : β → δ → Except ε β}
    {step' : γ → δ → Except ε γ} (h : ∀ b x, step' (f b) x = (step b x).map f) (xs : List δ)
    (b : β) :
    xs.foldlM step' (f b) = (xs.foldlM step b).map f := by
  induction xs generalizing b with
  | nil => rfl
  | cons x xs ih =>
    rw [List.foldlM_cons, List.foldlM_cons, h]
    cases step b x with
    | error e => rfl
    | ok c => exact ih c

/-! ## Results that are related -/

/-- Both computations fail, in the same way, or both have a result, and these are related. -/
inductive Agree {ε β γ : Type} (r : β → γ → Prop) : Except ε β → Except ε γ → Prop
  /-- The failures are the same. -/
  | error (e : ε) : Agree r (.error e) (.error e)
  /-- The results are related. -/
  | ok {b : β} {c : γ} (h : r b c) : Agree r (.ok b) (.ok c)

namespace Agree

variable {ε ε' β β' γ γ' : Type} {r : β → β' → Prop} {s : γ → γ' → Prop}

/-- A result agrees with itself. -/
theorem refl {r : β → β → Prop} (h : ∀ b, r b b) (result : Except ε β) : Agree r result result := by
  cases result with
  | error e => exact error e
  | ok b => exact ok (h b)

/-- Results that are related in one way are related in a weaker way. -/
theorem mono {r' : β → β' → Prop} {first : Except ε β} {first' : Except ε β'}
    (h : Agree r first first') (hr : ∀ b b', r b b' → r' b b') : Agree r' first first' := by
  cases h with
  | error e => exact error e
  | ok h => exact ok (hr _ _ h)

/-- When the first computations agree, and the next ones do on related results, so do both in a
row. -/
theorem bind {first : Except ε β} {first' : Except ε β'} {next : β → Except ε γ}
    {next' : β' → Except ε γ'} (hfirst : Agree r first first')
    (hnext : ∀ b b', first = .ok b → r b b' → Agree s (next b) (next' b')) :
    Agree s (first >>= next) (first' >>= next') := by
  cases hfirst with
  | error e => exact error e
  | ok h => exact hnext _ _ rfl h

/-- What is made of results that agree agrees. -/
theorem map {first : Except ε β} {first' : Except ε β'} {f : β → γ} {f' : β' → γ'}
    (hfirst : Agree r first first') (hf : ∀ b b', r b b' → s (f b) (f' b')) :
    Agree s (first.map f) (first'.map f') := by
  cases hfirst with
  | error e => exact error e
  | ok h => exact ok (hf _ _ h)

/-- Failures that are wrapped in the same way are the same. -/
theorem mapError {first : Except ε β} {first' : Except ε β'} (h : Agree r first first')
    (f : ε → ε') : Agree r (first.mapError f) (first'.mapError f) := by
  cases h with
  | error e => exact error (f e)
  | ok h => exact ok h

/-- Computations whose results have the same image agree. -/
theorem of_map_eq {f : β → γ} {f' : β' → γ} {first : Except ε β} {first' : Except ε β'}
    (h : first.map f = first'.map f') : Agree (fun b b' => f b = f' b') first first' := by
  cases first with
  | error e =>
    cases first' with
    | error e' =>
      cases h
      exact error e
    | ok b' => cases h
  | ok b =>
    cases first' with
    | error e' => cases h
    | ok b' => exact ok (Except.ok.inj h)

end Agree

/-! ## Recorded computations -/

namespace Recorded

variable {α β β' γ γ' : Type}

/-- The result of two computations in a row is that of their results. -/
theorem result_bind (first : Recorded α β) (next : β → Recorded α γ) :
    (first >>= next).result = first.result >>= fun b => (next b).result := by
  cases h : first.result with
  | error failure => exact result_bind_of_error next h
  | ok b => exact result_bind_of_ok next h

/-- The result of a loop is that of the results of its steps. -/
theorem result_foldlM (step : β → γ → Recorded α β) (xs : List γ) (b : β) :
    (xs.foldlM step b).result = xs.foldlM (fun b x => (step b x).result) b := by
  induction xs generalizing b with
  | nil => rfl
  | cons x xs ih =>
    rw [List.foldlM_cons, List.foldlM_cons, result_bind]
    exact congrArg _ (funext ih)

/-- What follows an event decides. -/
theorem result_record_bind (event : Event α) (next : Unit → Recorded α γ) :
    (record event >>= next).result = (next ()).result :=
  result_bind_of_ok next rfl

/-- When the first computations correspond, and the next ones do on results that correspond, so do
both in a row. -/
theorem result_bind_map {f : β → β'} {g : γ → γ'} {first : Recorded α β} {first' : Recorded α β'}
    {next : β → Recorded α γ} {next' : β' → Recorded α γ'}
    (hfirst : first'.result = first.result.map f)
    (hnext : ∀ b, first.result = .ok b → (next' (f b)).result = (next b).result.map g) :
    (first' >>= next').result = (first >>= next).result.map g := by
  cases h : first.result with
  | error failure =>
    rw [h] at hfirst
    rw [result_bind_of_error next h, result_bind_of_error next' hfirst]
    rfl
  | ok b =>
    rw [h] at hfirst
    rw [result_bind_of_ok next h, result_bind_of_ok next' hfirst, hnext b h]

/-- When the next computations correspond on each result of the first, so do both in a row. -/
theorem result_bind_map_right {g : γ → γ'} {first : Recorded α β} {next : β → Recorded α γ}
    {next' : β → Recorded α γ'}
    (h : ∀ b, first.result = .ok b → (next' b).result = (next b).result.map g) :
    (first >>= next').result = (first >>= next).result.map g := by
  refine result_bind_map (f := id) ?_ h
  cases first.result <;> rfl

/-- Failures of guarded computations that correspond are the same. -/
theorem result_guarded_map {f : β → β'} {result : Except (Fault α) β}
    {result' : Except (Fault α) β'} (h : result' = result.map f) :
    (guarded result').result = (guarded result).result.map f := by
  rw [h]
  cases result with
  | error fault => rfl
  | ok b => rfl

end Recorded

end LinProg
