import LinProg.Proofs.Course
import LinProg.Proofs.PhaseRun

/-!
# The model of a tableau

The columns of a tableau are the variables of its model, and no step of a solve puts another model
in. So every tableau of phase one has the program of phase one for its model, and every tableau of
phase two the standard form (`Model.HasPhase.model_of_mem_visited`), in any arithmetic. -/

namespace LinProg

/-- What every step of a loop keeps holds at its end. -/
theorem foldlM_eq_ok_induction {β γ ε : Type} {P : β → Prop} {step : β → γ → Except ε β}
    (hstep : ∀ b x c, P b → step b x = .ok c → P c) {xs : List γ} {b c : β} (hb : P b)
    (h : xs.foldlM step b = .ok c) : P c := by
  induction xs generalizing b with
  | nil =>
    cases h
    exact hb
  | cons x xs ih =>
    rw [List.foldlM_cons] at h
    obtain ⟨d, hd, hrest⟩ := (bind_eq_ok_iff _ _ _).1 h
    exact ih (hstep b x d hb hd) hrest

variable {α : Type} [Scalar α]

namespace Tableau

variable {T U : Tableau α}

omit [Scalar α] in
/-- A tableau has the model that it is made for. -/
theorem model_of_ofMatrix_eq_ok {n : ℕ} {model : Model α} {matrix : DenseMatrix α n}
    {tolerance : α} (h : ofMatrix model matrix tolerance = .ok T) : T.model = model := by
  unfold ofMatrix at h
  split at h
  · cases h
    rfl
  · exact absurd h nofun

/-- Pricing out keeps the model, also by the objective row itself. -/
theorem model_of_priceOut_eq_ok {row column : ℕ} (h : T.priceOut row column = .ok U) :
    U.model = T.model := by
  unfold priceOut at h
  obtain ⟨_, _, h⟩ := (bind_eq_ok_iff _ _ _).1 h
  obtain ⟨_, _, h⟩ := (bind_eq_ok_iff _ _ _).1 h
  obtain ⟨_, _, h⟩ := (bind_eq_ok_iff _ _ _).1 h
  cases h
  rfl

/-- The restored tableau has the model that it is restored for. -/
theorem model_of_restore_eq_ok {tolerance : α} {model : Model α} {artificials : List Artificial}
    (h : T.restore tolerance model artificials = .ok U) : U.model = model := by
  unfold restore at h
  obtain ⟨_, _, h⟩ := (bind_eq_ok_iff _ _ _).1 h
  obtain ⟨_, _, h⟩ := (bind_eq_ok_iff _ _ _).1 h
  obtain ⟨_, _, h⟩ := (bind_eq_ok_iff _ _ _).1 h
  obtain ⟨restored, hrestored, h⟩ := (bind_eq_ok_iff _ _ _).1 h
  refine foldlM_eq_ok_induction (P := fun R => R.model = model) (fun R p S hR hS => ?_)
    (model_of_ofMatrix_eq_ok hrestored) h
  obtain ⟨row, column?⟩ := p
  cases column? with
  | none =>
    cases hS
    exact hR
  | some column => exact (model_of_priceOut_eq_ok hS).trans hR

end Tableau

/-- The first tableau of a model has that model. -/
theorem Model.model_of_tableau_eq_ok {M : Model α} {tolerance : α} {T : Tableau α}
    (h : M.tableau tolerance = .ok T) : T.model = M := by
  unfold tableau at h
  obtain ⟨_, _, h⟩ := (bind_eq_ok_iff _ _ _).1 h
  obtain ⟨_, _, h⟩ := (bind_eq_ok_iff _ _ _).1 h
  obtain ⟨_, _, h⟩ := (bind_eq_ok_iff _ _ _).1 h
  exact Tableau.model_of_ofMatrix_eq_ok h

/-- The first tableau of phase one has the model of its program. -/
theorem PhaseOneProgram.model_of_tableau_eq_ok {program : PhaseOneProgram α} {tolerance : α}
    {T : Tableau α} (h : program.tableau tolerance = .ok T) : T.model = program.model := by
  unfold tableau at h
  obtain ⟨first, hfirst, h⟩ := (bind_eq_ok_iff _ _ _).1 h
  exact foldlM_eq_ok_induction (P := fun U : Tableau α => U.model = program.model)
    (fun U a V hU hV => (Tableau.model_of_priceOut_eq_ok hV).trans hU)
    (Model.model_of_tableau_eq_ok hfirst) h

/-- The tableaux of a phase have the model of the first one. -/
theorem Phase.model_of_mem_visited (settings : Settings α) {T : Tableau α} :
    ∀ U ∈ (run settings T).visited, U.model = T.model :=
  forall_mem_visited_of_chosen (P := fun U => U.model = T.model)
    (fun hchosen hU => (Tableau.pivoted_of_eq_ok hchosen.pivot).model.trans hU) settings rfl

/-- The tableaux of phase two have the standard form for their model. -/
theorem Model.HasPhase.model_of_mem_visited {M : Model α} {settings : Settings α}
    {phase : Phase α} (h : M.HasPhase settings 2 phase) :
    ∀ T ∈ phase.visited, T.model = (StandardForm.ofModel M).model := by
  intro T hT
  cases h with
  | only hskip hinitial =>
    exact (Phase.model_of_mem_visited settings T hT).trans (model_of_tableau_eq_ok hinitial)
  | two hneeds hone =>
    obtain ⟨_, _, _, _, _, _, _, _, _, hrestored⟩ :=
      StandardForm.exists_of_phaseOne_eq_feasible hone
    exact (Phase.model_of_mem_visited settings T hT).trans
      (Tableau.model_of_restore_eq_ok hrestored)

end LinProg
