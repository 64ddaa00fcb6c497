import LinProg.Proofs.Agreement
import LinProg.Proofs.Verdicts

/-!
# The margin of a model

How large a tolerance may be for a model to be solved as if there were none. The margin is the least
magnitude, at most one, among the numbers that a solve without tolerance compares with zero and
finds not to be zero (`Model.margin`). Which numbers these are is read off its trail: in each
tableau those that the choices there need, and after a phase the values that are read
(`Model.reads`). A tolerance below the margin takes no such number for zero, so the solve has the
same verdict and the same assignment (`Model.solve_withTolerance_of_lt_margin`), and an optimal
assignment satisfies the model within the tolerance (`Model.exists_isSatisfiedBy_of_lt_margin`). -/

namespace LinProg

/-! ## The least magnitude -/

/-- The least magnitude among the numbers that are not zero, and at most one. -/
def leastMagnitude : List ℚ → ℚ
  | [] => 1
  | x :: xs => if x = 0 then leastMagnitude xs else min |x| (leastMagnitude xs)

/-- The least magnitude is positive. -/
theorem leastMagnitude_pos (xs : List ℚ) : 0 < leastMagnitude xs := by
  induction xs with
  | nil => exact zero_lt_one
  | cons x xs ih =>
    unfold leastMagnitude
    split
    · exact ih
    · rename_i hne
      exact lt_min (abs_pos.2 hne) ih

/-- A tolerance below the least magnitude is apart from every number. -/
theorem apartFromZero_of_lt_leastMagnitude {t : ℚ} {xs : List ℚ} (h : t < leastMagnitude xs) :
    ∀ x ∈ xs, ApartFromZero t x := by
  induction xs with
  | nil => exact nofun
  | cons x xs ih =>
    unfold leastMagnitude at h
    rw [List.forall_mem_cons]
    split at h
    · rename_i hzero
      exact ⟨Or.inl hzero, ih h⟩
    · obtain ⟨hx, hxs⟩ := lt_min_iff.1 h
      exact ⟨Or.inr hx, ih hxs⟩

namespace Model

variable {M : Model ℚ} {settings : Settings ℚ} {t : ℚ}

/-- The tableaux of a solve without tolerance have none. -/
theorem tolerance_of_mem_trail_solve (htol : settings.tolerance = 0) (reads : ℕ → ℕ → Bool)
    (rule : PivotRule) : ∀ p ∈ trail reads rule (M.solve settings).events, p.1.tolerance = 0 := by
  refine tolerance_of_mem_trail reads rule fun number phase hphase => ?_
  obtain ⟨-, -, hphase⟩ := hasPhase_of_mem_events hphase
  cases hphase with
  | @one program initial hneeds hprogram hinitial =>
    refine Phase.tolerance_of_mem_visited ?_
    rw [htol] at hinitial
    exact Tableau.tolerance_of_eq_map (program.tableau_withTolerance 0 0) hinitial
  | two hneeds hone =>
    obtain ⟨program, levels, expunged, -, -, -, -, -, -, hrestore⟩ :=
      StandardForm.exists_of_phaseOne_eq_feasible hone
    refine Phase.tolerance_of_mem_visited ?_
    rw [htol] at hrestore
    exact Tableau.tolerance_of_eq_map (expunged.restore_withTolerance _ _ 0 0) hrestore
  | only hskip hinitial =>
    refine Phase.tolerance_of_mem_visited ?_
    rw [htol] at hinitial
    exact Tableau.tolerance_of_eq_map (tableau_withTolerance _ 0 0) hinitial

/-! ## The margin -/

/-- The columns whose values a solve reads after a phase: after phase one those of the artificial
variables, and after phase two those of the model's own variables. -/
def reads (M : Model ℚ) (number column : ℕ) : Bool :=
  if number = 1 then decide ((StandardForm.ofModel M).model.vars.length ≤ column)
  else decide (column < M.vars.length)

/-- How large a tolerance may be: the least magnitude, at most one, among the numbers that the solve
without tolerance compares with zero, for its choices and for the values that it reads, and that are
not zero. -/
def margin (M : Model ℚ) (settings : Settings ℚ) : ℚ :=
  leastMagnitude
    ((trail M.reads settings.rule (M.solve (settings.withTolerance 0)).events).flatMap (·.2))

/-- The margin is positive. -/
theorem margin_pos (M : Model ℚ) (settings : Settings ℚ) : 0 < M.margin settings :=
  leastMagnitude_pos _

/-- Under a tolerance below the margin a solve ends in the same way as without tolerance. -/
theorem solve_withTolerance_of_lt_margin (hM : M.Scoped) (hnonneg : 0 ≤ t)
    (h : t < M.margin settings) :
    Agree (Solution.SameUnder t M) (M.solve (settings.withTolerance 0)).result
      (M.solve (settings.withTolerance t)).result := by
  have hexact : (settings.withTolerance 0).tolerance = 0 := rfl
  have hown : ∀ j < M.vars.length, M.reads 2 j = true := fun j hj => decide_eq_true hj
  refine solve_withTolerance hexact hown
    (fun program hprogram a ha => ?_) fun p hp => ?_
  · have hshape := programShape_of_eq_ok (StandardForm.scoped_ofModel hM)
      (StandardForm.length_slacks_ofModel M) hprogram
    exact decide_eq_true (hshape.width_le_column ha)
  · refine ⟨tolerance_of_mem_trail_solve hexact M.reads settings.rule p hp, hnonneg,
      fun x hx => ?_⟩
    exact apartFromZero_of_lt_leastMagnitude h x (List.mem_flatMap.2 ⟨p, hp, hx⟩)

/-- An optimal assignment without tolerance satisfies the model. -/
theorem exists_isSatisfiedBy_of_optimal (hM : M.Scoped) {o : Objective ℚ} {s : Solution ℚ}
    (houtcome : Outcome M o settings (.ok s)) (hoptimal : s.isOptimal = true) :
    ∃ v, s.assignment M = some v ∧ M.isSatisfiedBy v 0 = .ok true := by
  unfold Solution.isOptimal at hoptimal
  cases houtcome with
  | infeasible hverdict | unbounded hverdict =>
    rw [hverdict] at hoptimal
    exact absurd hoptimal Bool.false_ne_true
  | @optimal s values value hverdict hmax hlength hfeasible =>
    have hown : (values.take M.vars.length).length = M.vars.length :=
      List.length_take_of_le hlength
    refine ⟨_, ?_, isSatisfiedBy_of_feasible hM hmax hown hfeasible⟩
    unfold Solution.assignment
    rw [hverdict]
    exact if_pos hlength

/-- Under a tolerance below the margin an optimal assignment is non-negative and satisfies every
constraint within that tolerance. -/
theorem exists_isSatisfiedBy_of_lt_margin (name : String) (calls : List (Call ℚ))
    (hnonneg : 0 ≤ t) (hlt : t < (built name calls).margin settings) {s : Solution ℚ}
    (hs : ((built name calls).solve (settings.withTolerance t)).result = .ok s)
    (hoptimal : s.isOptimal = true) :
    ∃ v, s.assignment (built name calls) = some v ∧
      (built name calls).isSatisfiedBy v t = .ok true := by
  have hM := scoped_built name calls
  have hagree := solve_withTolerance_of_lt_margin hM hnonneg hlt
  rw [hs] at hagree
  -- The solve without tolerance has the same verdict and the same assignment.
  cases hexact : ((built name calls).solve (settings.withTolerance 0)).result with
  | error failure =>
    rw [hexact] at hagree
    cases hagree
  | ok exact =>
    rw [hexact] at hagree
    cases hagree with
    | ok hsame =>
      obtain ⟨o, -, houtcome⟩ := outcome_of_solve_eq_ok name calls rfl hexact
      obtain ⟨v, hv, hsatisfied⟩ := exists_isSatisfiedBy_of_optimal hM houtcome
        (hsame.isOptimal_eq.symm.trans hoptimal)
      exact ⟨v, hsame.assignment_eq.trans hv, isSatisfiedBy_mono hnonneg hsatisfied⟩

end Model

end LinProg
