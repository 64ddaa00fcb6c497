import LinProg.Proofs.Course
import LinProg.Proofs.PhaseOne

/-!
# The verdicts of a solve

A solve without tolerance ends in one of the ways of `Outcome`, whatever the rule, the number of
pivots allowed and the limit on degenerate ones (`outcome_solve`). For a model that calls have
built, in terms of what a caller can compute, this says that each verdict is right: an optimal
solution satisfies the model and no other vector that does is better, no vector satisfies an
infeasible model, and the vectors that satisfy an unbounded one are better than every bound. There
is a verdict unless a phase runs out of pivots. -/

namespace LinProg

namespace Model

section Outcome

variable {M : Model ℚ} {o : Objective ℚ} {settings : Settings ℚ}

/-- A solve of a model with an objective and constraints ends in one of the ways of `Outcome`. -/
theorem outcome_solve (hM : M.Scoped) (ho : M.objective = some o) (hsome : M.constraints ≠ [])
    (htol : settings.tolerance = 0) : Outcome M o settings (M.solve settings).result := by
  have hempty : ¬M.constraints.isEmpty = true := by simpa using hsome
  have hstandard := StandardForm.isStandard_ofModel hM
  have hobjective := StandardForm.objective_ofModel ho
  have hown := (StandardForm.ofModel_extends hM).width_le
  unfold solve
  rw [ho]
  dsimp only
  rw [if_neg hempty, Recorded.result_bind_of_ok _ (Recorded.result_record _)]
  cases hphase : (StandardForm.ofModel M).needsPhaseOne with
  | false =>
    -- Each constraint has a slack, and phase two starts from the first tableau.
    rw [if_neg Bool.false_ne_true, Recorded.result_bind_of_ok _ (Recorded.result_record _), htol]
    rcases lt_or_ge Expression.maxDenseLength (StandardForm.ofModel M).model.vars.length with
      hmax | hmax
    · have hwidth := StandardForm.width_ofModel_le M
      rw [tableau_of_oversized hobjective hmax, Recorded.result_bind_of_error _ rfl]
      exact .oversized hmax (by omega)
    · obtain ⟨T, hT, -⟩ := exists_tableau_eq_ok hstandard.toScoped hobjective hmax 0
      rw [hT, Recorded.result_bind_of_ok _ ((Recorded.result_guarded_eq_ok_iff _ _).2 rfl)]
      exact outcome_phaseTwo hM ho (hown.trans hmax) (startsFrom_of_tableau hM ho hphase hT) none 0
  | true =>
    -- Phase one decides whether there is a start.
    rw [if_pos rfl]
    have houtcome := outcome_phaseOne hM ho htol
    generalize hone : (StandardForm.ofModel M).phaseOne settings = one at houtcome
    cases hresult : one.result with
    | error failure =>
      rw [hresult] at houtcome
      rw [Recorded.result_bind_of_error _ hresult]
      cases houtcome with
      | oversized hmax hlength => exact .oversized hmax hlength
      | exhausted hT hcolumns hheight hending => exact .exhausted 1 hT hcolumns hheight hending
    | ok found =>
      rw [hresult] at houtcome
      rw [Recorded.result_bind_of_ok _ hresult]
      cases houtcome with
      | infeasible hnone => exact .infeasible rfl hnone
      | feasible hmax hstarts => exact outcome_phaseTwo hM ho hmax hstarts _ _

/-- The end of a solve that calls have prepared, when it has a solution. -/
theorem outcome_of_solve_eq_ok (name : String) (calls : List (Call ℚ))
    (htol : settings.tolerance = 0) {s : Solution ℚ}
    (h : ((built name calls).solve settings).result = .ok s) :
    ∃ o, (built name calls).objective = some o ∧
      Outcome (built name calls) o settings (.ok s) := by
  obtain ⟨o, ho, hnonempty, -⟩ := concludes_of_solve_eq_ok h
  have hsome : (built name calls).constraints ≠ [] := List.isEmpty_eq_false_iff.1 hnonempty
  have houtcome := outcome_solve (scoped_built name calls) ho hsome htol
  rw [h] at houtcome
  exact ⟨o, ho, houtcome⟩

end Outcome

/-! ## Optimal -/

/-- The assignment of an optimal solution has a value for each variable and satisfies the model, the
objective value is that of the model's objective there, and no vector that satisfies the model has a
better one. -/
theorem solve_optimal (name : String) (calls : List (Call ℚ)) {settings : Settings ℚ}
    (htol : settings.tolerance = 0) {s : Solution ℚ}
    (h : ((built name calls).solve settings).result = .ok s) (hoptimal : s.isOptimal = true) :
    ∃ o v value, (built name calls).objective = some o ∧
      s.assignment (built name calls) = some v ∧
      v.length = (built name calls).vars.length ∧
      (built name calls).isSatisfiedBy v 0 = .ok true ∧
      o.expression.evaluate v = .ok value ∧
      s.objectiveValue = some value ∧
      ∀ w, (built name calls).isSatisfiedBy w 0 = .ok true →
        ∃ other, o.expression.evaluate w = .ok other ∧ ¬o.direction.Better other value := by
  have hM : (built name calls : Model ℚ).Scoped := scoped_built name calls
  obtain ⟨o, ho, houtcome⟩ := outcome_of_solve_eq_ok name calls htol h
  generalize built name calls = M at *
  unfold Solution.isOptimal at hoptimal
  cases houtcome with
  | infeasible hverdict | unbounded hverdict =>
    rw [hverdict] at hoptimal
    exact absurd hoptimal Bool.false_ne_true
  | @optimal s values value hverdict hmax hlength hfeasible hvalue hbest =>
    -- The assignment is the front of the values, one for each variable.
    have hown : (values.take M.vars.length).length = M.vars.length := by
      rw [List.length_take]
      omega
    have hassignment : s.assignment M = some (values.take M.vars.length) := by
      unfold Solution.assignment
      rw [hverdict]
      exact if_pos hlength
    have hobjective : s.objectiveValue = some value := by
      unfold Solution.objectiveValue
      rw [hverdict]
    refine ⟨o, _, value, ho, hassignment, hown, isSatisfiedBy_of_feasible hM hmax hown hfeasible,
      ?_, hobjective, fun w hw => ?_⟩
    · rw [evaluate_eq_ok hM ho hmax hown, hvalue]
    · obtain ⟨hwlength, hwfeasible⟩ := feasible_of_isSatisfiedBy hw
      exact ⟨_, evaluate_eq_ok hM ho hmax hwlength, hbest _ hwfeasible⟩

/-- Make `3 x + 2 y + 5` large, with `x + y ≤ 4`, `x + 3 y ≤ 6`, and `x + y ≥ 1`. -/
def cappedCalls : List (Call ℚ) :=
  let x : Variable := ⟨0, "x"⟩
  let y : Variable := ⟨1, "y"⟩
  [.addVariable "x", .addVariable "y",
    .addConstraint ⟨[⟨1, x⟩, ⟨1, y⟩], 0⟩ .atMost 4,
    .addConstraint ⟨[⟨1, x⟩, ⟨3, y⟩], 0⟩ .atMost 6,
    .addConstraint ⟨[⟨1, x⟩, ⟨1, y⟩], 0⟩ .atLeast 1,
    .maximize ⟨[⟨3, x⟩, ⟨2, y⟩], 5⟩]

/-- Settings without tolerance. -/
def exactSettings : Settings ℚ :=
  { tolerance := 0, maxIterations := 10, rule := .dantzig, degenerateLimit := 2 }

/-- The capped model has an optimal solution, and what holds of optimal solutions holds of it. -/
theorem solve_optimal_capped : ∃ s,
    exactSettings.tolerance = 0 ∧
    ((built "capped" cappedCalls).solve exactSettings).result = .ok s ∧ s.isOptimal = true ∧
    ∃ o v value, (built "capped" cappedCalls).objective = some o ∧
      s.assignment (built "capped" cappedCalls) = some v ∧
      v.length = (built "capped" cappedCalls).vars.length ∧
      (built "capped" cappedCalls).isSatisfiedBy v 0 = .ok true ∧
      o.expression.evaluate v = .ok value ∧
      s.objectiveValue = some value ∧
      ∀ w, (built "capped" cappedCalls).isSatisfiedBy w 0 = .ok true →
        ∃ other, o.expression.evaluate w = .ok other ∧ ¬o.direction.Better other value := by
  have hresult : (match ((built "capped" cappedCalls).solve exactSettings).result with
      | .ok s => s.isOptimal
      | .error _ => false) = true := by
    decide +kernel
  split at hresult
  · rename_i s hs
    exact ⟨s, rfl, hs, hresult, solve_optimal "capped" cappedCalls rfl hs hresult⟩
  · exact absurd hresult Bool.false_ne_true

/-! ## Infeasible -/

/-- No vector satisfies a model that is found infeasible. -/
theorem solve_infeasible (name : String) (calls : List (Call ℚ)) {settings : Settings ℚ}
    (htol : settings.tolerance = 0) {s : Solution ℚ}
    (h : ((built name calls).solve settings).result = .ok s) (hinfeasible : s.isFeasible = false) :
    ∀ w, (built name calls).isSatisfiedBy w 0 ≠ .ok true := by
  obtain ⟨o, -, houtcome⟩ := outcome_of_solve_eq_ok name calls htol h
  unfold Solution.isFeasible at hinfeasible
  cases houtcome with
  | infeasible _ hnone =>
    intro w hw
    obtain ⟨-, hfeasible⟩ := feasible_of_isSatisfiedBy hw
    exact hnone _ hfeasible
  | unbounded hverdict | optimal hverdict =>
    rw [hverdict] at hinfeasible
    exact absurd hinfeasible.symm Bool.false_ne_true

/-- Ask for `x + y ≤ 1` and `x + y ≥ 2` at once. -/
def contradictoryCalls : List (Call ℚ) :=
  let x : Variable := ⟨0, "x"⟩
  let y : Variable := ⟨1, "y"⟩
  [.addVariable "x", .addVariable "y",
    .addConstraint ⟨[⟨1, x⟩, ⟨1, y⟩], 0⟩ .atMost 1,
    .addConstraint ⟨[⟨1, x⟩, ⟨1, y⟩], 0⟩ .atLeast 2,
    .maximize ⟨[⟨1, x⟩], 0⟩]

/-- The contradictory model is found infeasible, so no vector satisfies it. -/
theorem solve_infeasible_contradictory : ∃ s,
    exactSettings.tolerance = 0 ∧
    ((built "contradictory" contradictoryCalls).solve exactSettings).result = .ok s ∧
    s.isFeasible = false ∧
    ∀ w, (built "contradictory" contradictoryCalls).isSatisfiedBy w 0 ≠ .ok true := by
  have hresult : (match ((built "contradictory" contradictoryCalls).solve exactSettings).result with
      | .ok s => !s.isFeasible
      | .error _ => false) = true := by
    decide +kernel
  split at hresult
  · rename_i s hs
    have hinfeasible : s.isFeasible = false := by simpa using hresult
    exact ⟨s, rfl, hs, hinfeasible,
      solve_infeasible "contradictory" contradictoryCalls rfl hs hinfeasible⟩
  · exact absurd hresult Bool.false_ne_true

/-! ## Unbounded -/

/-- For every bound some vector satisfies a model that is found unbounded and is better than the
bound. -/
theorem solve_unbounded (name : String) (calls : List (Call ℚ)) {settings : Settings ℚ}
    (htol : settings.tolerance = 0) {s : Solution ℚ}
    (h : ((built name calls).solve settings).result = .ok s) (hunbounded : s.isBounded = false) :
    ∃ o, (built name calls).objective = some o ∧ ∀ K, ∃ w value,
      (built name calls).isSatisfiedBy w 0 = .ok true ∧ o.expression.evaluate w = .ok value ∧
        o.direction.Better value K := by
  have hM : (built name calls : Model ℚ).Scoped := scoped_built name calls
  obtain ⟨o, ho, houtcome⟩ := outcome_of_solve_eq_ok name calls htol h
  generalize built name calls = M at *
  unfold Solution.isBounded at hunbounded
  cases houtcome with
  | infeasible hverdict | optimal hverdict =>
    rw [hverdict] at hunbounded
    exact absurd hunbounded.symm Bool.false_ne_true
  | unbounded _ hmax hbetter =>
    refine ⟨o, ho, fun K => ?_⟩
    obtain ⟨x, hfeasible, hx⟩ := hbetter K
    -- The values of the point, as a vector.
    let w := List.ofFn fun j : Fin M.vars.length => x j
    have hlength : w.length = M.vars.length := by simp [w]
    have hentry : ∀ j < M.vars.length, x j = Row.entry w j := by
      intro j hj
      rw [Row.entry_ofFn, if_pos hj]
    have hfeasible' : M.Feasible (Row.entry w) := (M.feasible_congr hentry).1 hfeasible
    have hsatisfied := isSatisfiedBy_of_feasible hM hmax hlength hfeasible'
    refine ⟨w, _, hsatisfied, evaluate_eq_ok hM ho hmax hlength, ?_⟩
    rw [← Expression.linear_congr _ hentry]
    exact hx

/-- Make `x - y` small with `x - 2 y ≤ 3`. -/
def openCalls : List (Call ℚ) :=
  let x : Variable := ⟨0, "x"⟩
  let y : Variable := ⟨1, "y"⟩
  [.addVariable "x", .addVariable "y",
    .addConstraint ⟨[⟨1, x⟩, ⟨-2, y⟩], 0⟩ .atMost 3,
    .minimize ⟨[⟨1, x⟩, ⟨-1, y⟩], 0⟩]

/-- The open model is found unbounded, and what holds of unbounded models holds of it. -/
theorem solve_unbounded_open : ∃ s,
    exactSettings.tolerance = 0 ∧
    ((built "open" openCalls).solve exactSettings).result = .ok s ∧ s.isBounded = false ∧
    ∃ o, (built "open" openCalls).objective = some o ∧ ∀ K, ∃ w value,
      (built "open" openCalls).isSatisfiedBy w 0 = .ok true ∧ o.expression.evaluate w = .ok value ∧
        o.direction.Better value K := by
  have hresult : (match ((built "open" openCalls).solve exactSettings).result with
      | .ok s => !s.isBounded
      | .error _ => false) = true := by
    decide +kernel
  split at hresult
  · rename_i s hs
    have hunbounded : s.isBounded = false := by simpa using hresult
    exact ⟨s, rfl, hs, hunbounded, solve_unbounded "open" openCalls rfl hs hunbounded⟩
  · exact absurd hresult Bool.false_ne_true

/-! ## Failures -/

/-- A solve of a model with an objective and constraints has a solution, or runs out of the pivots
that a phase may make. No step is refused on the way, unless the columns are too many to be
addressed. -/
theorem solve_ok_or_iterationLimit (name : String) (calls : List (Call ℚ)) {settings : Settings ℚ}
    (htol : settings.tolerance = 0) (hobjective : (built name calls).objective.isSome = true)
    (hsome : (built name calls).constraints ≠ []) :
    (∃ s, ((built name calls).solve settings).result = .ok s) ∨
      (∃ phase, ((built name calls).solve settings).result =
        .error (.error (.iterationLimit phase settings.maxIterations))) ∨
      ∃ length, Expression.maxDenseLength < length ∧
        length ≤ (built name calls).vars.length + 3 * (built name calls).constraints.length ∧
        ((built name calls).solve settings).result = .error (.fault (.oversizedVector length)) := by
  obtain ⟨o, ho⟩ := Option.isSome_iff_exists.1 hobjective
  have houtcome := outcome_solve (scoped_built name calls) ho hsome htol
  generalize ((built name calls).solve settings).result = result at houtcome ⊢
  cases houtcome with
  | oversized hmax hlength => exact Or.inr (Or.inr ⟨_, hmax, hlength, rfl⟩)
  | @exhausted T number hT hcolumns hheight hending =>
    -- The phase that is cut short has made all pivots that were allowed.
    have hruns := Phase.runs_pivots settings settings.maxIterations settings.rule 0 T
    rw [show (Phase.pivots settings settings.maxIterations settings.rule 0 T).2 = .exhausted
      from hending] at hruns
    have hlength : (Phase.run settings T).iterations = settings.maxIterations :=
      hruns.length_of_exhausted
    rw [hlength]
    exact Or.inr (Or.inl ⟨number, rfl⟩)
  | infeasible | unbounded | optimal => exact Or.inl ⟨_, rfl⟩

/-- The capped model has an objective and constraints, so its solve has a solution or runs out of
pivots. -/
theorem solve_ok_or_iterationLimit_capped :
    exactSettings.tolerance = 0 ∧ (built "capped" cappedCalls).objective.isSome = true ∧
    (built "capped" cappedCalls).constraints ≠ [] ∧
    ((∃ s, ((built "capped" cappedCalls).solve exactSettings).result = .ok s) ∨
      (∃ phase, ((built "capped" cappedCalls).solve exactSettings).result =
        .error (.error (.iterationLimit phase exactSettings.maxIterations))) ∨
      ∃ length, Expression.maxDenseLength < length ∧
        length ≤ (built "capped" cappedCalls).vars.length +
          3 * (built "capped" cappedCalls).constraints.length ∧
        ((built "capped" cappedCalls).solve exactSettings).result =
          .error (.fault (.oversizedVector length))) := by
  have hobjective : (built "capped" cappedCalls).objective.isSome = true := by decide +kernel
  have hlength : (built "capped" cappedCalls).constraints.length = 3 := by decide +kernel
  have hsome : (built "capped" cappedCalls).constraints ≠ [] :=
    List.ne_nil_of_length_pos (by omega)
  exact ⟨rfl, hobjective, hsome,
    solve_ok_or_iterationLimit "capped" cappedCalls rfl hobjective hsome⟩

end Model

end LinProg
