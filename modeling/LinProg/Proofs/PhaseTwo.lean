import LinProg.Solve
import LinProg.Proofs.PhaseRun
import LinProg.Proofs.FirstTableau

/-!
# Phase two

`StartsFrom` is what phase two needs of its first tableau: it is canonical, its solutions without
negative values are the feasible points of the model with values for further columns, and its
objective is the model's, as something to make as large as possible. With slacks for all constraints
the first tableau of the standard form is one (`startsFrom_of_tableau`).

`Outcome` lists how a solve can end and what each end means. From a tableau as above, phase two ends
in one of these ways: it runs out of pivots, its last tableau shows an unbounded column and so
points with objective values beyond every bound, or its last tableau shows a best point
(`outcome_phaseTwo`). -/

namespace LinProg

/-! ## Points as vectors of values -/

namespace Model

variable {M : Model ℚ}

/-- Values that satisfy a model are a feasible point. -/
theorem feasible_of_isSatisfiedBy {w : List ℚ} (h : M.isSatisfiedBy w 0 = .ok true) :
    w.length = M.vars.length ∧ M.Feasible (Row.entry w) := by
  obtain ⟨hlength, hfeasible, -⟩ := (M.isSatisfiedBy_zero_iff w).1 h
  exact ⟨hlength, hfeasible⟩

/-- A feasible point has values that satisfy the model. -/
theorem isSatisfiedBy_of_feasible (hM : M.Scoped)
    (hmax : M.vars.length ≤ Expression.maxDenseLength) {w : List ℚ}
    (hlength : w.length = M.vars.length) (h : M.Feasible (Row.entry w)) :
    M.isSatisfiedBy w 0 = .ok true :=
  (M.isSatisfiedBy_zero_iff w).2 ⟨hlength, h, fun c hc => ⟨hmax, hM.constraints c hc⟩⟩

/-- The objective can be computed for values of all variables. -/
theorem evaluate_eq_ok {o : Objective ℚ} (hM : M.Scoped) (ho : M.objective = some o)
    (hmax : M.vars.length ≤ Expression.maxDenseLength) {w : List ℚ}
    (hlength : w.length = M.vars.length) :
    o.expression.evaluate w =
      .ok (o.expression.linear M.vars.length (Row.entry w) + o.expression.constant) := by
  have hwithin := hM.objective o ho
  apply (Expression.evaluate_eq_ok_iff _ _ _).2
  rw [hlength]
  exact ⟨hmax, hwithin, rfl⟩

end Model

/-- Beyond some value of the objective to make large, the objective is better than a bound. -/
theorem Objective.exists_forall_better (o : Objective ℚ) (K : ℚ) : ∃ L, ∀ width x,
    L < o.asMaximization.expression.linear width x →
      o.direction.Better (o.expression.linear width x + o.expression.constant) K := by
  unfold asMaximization
  cases hdirection : o.direction with
  | maximize =>
    refine ⟨K - o.expression.constant, fun width x hx => ?_⟩
    show K < o.expression.linear width x + o.expression.constant
    linarith
  | minimize =>
    refine ⟨o.expression.constant - K, fun width x hx => ?_⟩
    have hx' : o.expression.constant - K < o.expression.negate.linear width x := hx
    rw [Expression.linear_negate] at hx'
    show o.expression.linear width x + o.expression.constant < K
    linarith

/-! ## The first tableau of phase two -/

/-- Phase two can start from `T`. -/
structure StartsFrom (M : Model ℚ) (o : Objective ℚ) (T : Tableau ℚ) : Prop where
  /-- The tableau is canonical. -/
  canonical : T.Canonical
  /-- The columns of the model's own variables come first. -/
  width_le : M.vars.length ≤ T.columns
  /-- There are at most two more columns for each constraint. -/
  columns_le : T.columns ≤ M.vars.length + 2 * M.constraints.length
  /-- There is a row for the objective and one for each constraint. -/
  height : T.matrix.height = M.constraints.length + 1
  /-- A solution without negative values is a feasible point. -/
  restrict : ∀ y, (∀ j < T.columns, 0 ≤ y j) → T.Solves y → M.Feasible y
  /-- A feasible point extends to a solution without negative values. -/
  extend : ∀ x, M.Feasible x → ∃ y, (∀ j < T.columns, 0 ≤ y j) ∧ T.Solves y ∧
    ∀ j < M.vars.length, y j = x j
  /-- The objective is the model's, as something to make large. -/
  objectiveAt_eq : ∀ y, T.Solves y →
    T.objectiveAt y = o.asMaximization.expression.linear M.vars.length y

/-- A canonical tableau whose solutions are the feasible points of the standard form, with the
objective of the standard form, is one to start from. -/
theorem startsFrom_of_form {M : Model ℚ} {o : Objective ℚ} (hM : M.Scoped)
    (ho : M.objective = some o) {T : Tableau ℚ} (hT : T.Canonical)
    (hcolumns : T.columns = (StandardForm.ofModel M).model.vars.length)
    (hheight : T.matrix.height = (StandardForm.ofModel M).model.constraints.length + 1)
    (hfeasible : ∀ y, (StandardForm.ofModel M).model.Feasible y ↔
      (∀ j < T.columns, 0 ≤ y j) ∧ T.Solves y)
    (hobjective : ∀ y, T.Solves y → T.objectiveAt y =
      o.asMaximization.expression.linear (StandardForm.ofModel M).model.vars.length y) :
    StartsFrom M o T := by
  have hextends := StandardForm.ofModel_extends hM
  refine ⟨hT, ?_, ?_, ?_, fun y hpos hy => ?_, fun x hx => ?_, fun y hy => ?_⟩
  · rw [hcolumns]
    exact hextends.width_le
  · rw [hcolumns]
    exact StandardForm.width_ofModel_le M
  · rw [hheight, StandardForm.length_constraints_ofModel]
  · exact hextends.restrict y ((hfeasible y).2 ⟨hpos, hy⟩)
  · obtain ⟨y, hy, hyx⟩ := hextends.extend x hx
    obtain ⟨hpos, hsolves⟩ := (hfeasible y).1 hy
    exact ⟨y, hpos, hsolves, hyx⟩
  · rw [hobjective y hy,
      (StandardForm.within_asMaximization hM ho).linear_eq hextends.width_le]

/-- With a slack for each constraint the first tableau of the standard form is one to start from. -/
theorem startsFrom_of_tableau {M : Model ℚ} {o : Objective ℚ} (hM : M.Scoped)
    (ho : M.objective = some o) (hskip : (StandardForm.ofModel M).needsPhaseOne = false)
    {T : Tableau ℚ} (h : (StandardForm.ofModel M).model.tableau 0 = .ok T) :
    StartsFrom M o T := by
  have hstandard := StandardForm.isStandard_ofModel hM
  have hobjective := StandardForm.objective_ofModel ho
  have hfirst := Model.firstOf_of_eq_ok hstandard.toScoped hobjective h
  have hcanonical : T.Canonical := by
    apply hfirst.canonical hstandard
    intro k hk
    have hk' : k < (StandardForm.ofModel M).slacks.length := by
      rw [StandardForm.length_slacks_ofModel]
      exact hk
    obtain ⟨n, hn⟩ := StandardForm.exists_slack_of_needsPhaseOne_eq_false hskip hk'
    obtain ⟨hunit, hle⟩ := StandardForm.unitColumn_of_slack hM hn
    exact ⟨n, hunit, (StandardForm.within_asMaximization hM ho).coefficientAt_of_le hle⟩
  exact startsFrom_of_form hM ho hcanonical hfirst.columns hfirst.height
    (hfirst.feasible_iff hstandard) fun y _ => hfirst.objectiveAt_eq y

/-! ## The ends of a solve -/

/-- The ways in which a solve of a model with an objective and constraints can end, and what each of
them means. -/
inductive Outcome (M : Model ℚ) (o : Objective ℚ) (settings : Settings ℚ) :
    Except (Failure ℚ) (Solution ℚ) → Prop
  /-- The variables and the columns that are added cannot be addressed. -/
  | oversized {length : ℕ} (hmax : Expression.maxDenseLength < length)
      (hlength : length ≤ M.vars.length + 3 * M.constraints.length) :
      Outcome M o settings (.error (.fault (.oversizedVector length)))
  /-- A phase from a canonical tableau runs out of pivots. -/
  | exhausted {T : Tableau ℚ} (number : ℕ) (hT : T.Canonical)
      (hcolumns : T.columns ≤ M.vars.length + 3 * M.constraints.length)
      (hheight : T.matrix.height = M.constraints.length + 1)
      (hending : (Phase.run settings T).ending = .exhausted) :
      Outcome M o settings
        (.error (.error (.iterationLimit number (Phase.run settings T).iterations)))
  /-- There is no feasible point. -/
  | infeasible {s : Solution ℚ} (hverdict : s.verdict = .infeasible)
      (hnone : ∀ x, ¬M.Feasible x) : Outcome M o settings (.ok s)
  /-- Feasible points are better than every bound. -/
  | unbounded {s : Solution ℚ} (hverdict : s.verdict = .unbounded)
      (hmax : M.vars.length ≤ Expression.maxDenseLength)
      (hbetter : ∀ K, ∃ x, M.Feasible x ∧
        o.direction.Better (o.expression.linear M.vars.length x + o.expression.constant) K) :
      Outcome M o settings (.ok s)
  /-- The front of the values is a feasible point, and no feasible point is better. -/
  | optimal {s : Solution ℚ} {values : List ℚ} {value : ℚ}
      (hverdict : s.verdict = .optimal values value)
      (hmax : M.vars.length ≤ Expression.maxDenseLength)
      (hlength : M.vars.length ≤ values.length)
      (hfeasible : M.Feasible (Row.entry (values.take M.vars.length)))
      (hvalue : value = o.expression.linear M.vars.length
        (Row.entry (values.take M.vars.length)) + o.expression.constant)
      (hbest : ∀ x, M.Feasible x → ¬o.direction.Better
        (o.expression.linear M.vars.length x + o.expression.constant) value) :
      Outcome M o settings (.ok s)

/-- Out of pivots, phase two has no solution. -/
theorem result_phaseTwo_of_exhausted {α : Type} [Scalar α] {M : Model α} {o : Objective α}
    {settings : Settings α} {T : Tableau α} (hending : (Phase.run settings T).ending = .exhausted)
    (phaseOneTableau : Option (Tableau α)) (earlier : ℕ) :
    (M.phaseTwo o settings T phaseOneTableau earlier).result =
      .error (.error (.iterationLimit 2 (Phase.run settings T).iterations)) := by
  unfold Model.phaseTwo
  simp only [hending]
  rfl

section Phase

variable {M : Model ℚ} {o : Objective ℚ} {settings : Settings ℚ} {T : Tableau ℚ}

/-- At an unbounded column the model is found unbounded. -/
theorem exists_unbounded_of_unbounded {column : ℕ}
    (hending : (Phase.run settings T).ending = .unbounded column)
    (phaseOneTableau : Option (Tableau ℚ)) (earlier : ℕ) :
    ∃ s, (M.phaseTwo o settings T phaseOneTableau earlier).result = .ok s ∧
      s.verdict = .unbounded := by
  unfold Model.phaseTwo
  simp only [hending]
  exact ⟨_, rfl, rfl⟩

/-- At an optimal tableau the solution holds its assignment, and the objective value there. -/
theorem exists_optimal_of_optimal (hending : (Phase.run settings T).ending = .optimal)
    {own : List ℚ} {value : ℚ}
    (hproject : M.project (Phase.run settings T).last.assignment = .ok own)
    (hevaluate : o.expression.evaluate own = .ok value)
    (phaseOneTableau : Option (Tableau ℚ)) (earlier : ℕ) :
    ∃ s, (M.phaseTwo o settings T phaseOneTableau earlier).result = .ok s ∧
      s.verdict = .optimal (Phase.run settings T).last.assignment value := by
  unfold Model.phaseTwo
  simp only [hending]
  rw [Recorded.result_bind_of_ok _ (Recorded.result_record _),
    Recorded.result_bind_of_ok _ ((Recorded.result_guarded_eq_ok_iff _ _).2 hproject),
    Recorded.result_bind_of_ok _ ((Recorded.result_guarded_eq_ok_iff _ _).2 hevaluate)]
  exact ⟨_, rfl, rfl⟩

/-- Phase two ends in one of the ways of a solve. -/
theorem outcome_phaseTwo (hM : M.Scoped) (ho : M.objective = some o)
    (hmax : M.vars.length ≤ Expression.maxDenseLength) (h : StartsFrom M o T)
    (phaseOneTableau : Option (Tableau ℚ)) (earlier : ℕ) :
    Outcome M o settings (M.phaseTwo o settings T phaseOneTableau earlier).result := by
  have hcolumns : T.columns ≤ M.vars.length + 3 * M.constraints.length := by
    have hle := h.columns_le
    omega
  cases hending : (Phase.run settings T).ending with
  | failed failure => exact absurd hending (Phase.pivots_ne_failed settings _ _ _ h.canonical _)
  | exhausted =>
    rw [result_phaseTwo_of_exhausted hending]
    exact .exhausted 2 h.canonical hcolumns h.height hending
  | unbounded column =>
    obtain ⟨s, hs, hverdict⟩ :=
      exists_unbounded_of_unbounded (M := M) (o := o) hending phaseOneTableau earlier
    rw [hs]
    refine .unbounded hverdict hmax fun K => ?_
    -- Far enough along the ray the objective is better than the bound.
    obtain ⟨L, hL⟩ := o.exists_forall_better K
    obtain ⟨x, hsolves, hpos, hgt⟩ :=
      Phase.exists_objectiveAt_gt_of_unbounded h.canonical hending L
    rw [h.objectiveAt_eq x hsolves] at hgt
    exact ⟨x, h.restrict x (fun j _ => hpos j) hsolves, hL _ x hgt⟩
  | optimal =>
    obtain ⟨hlast, hequivalent⟩ := Phase.last_run_spec settings h.canonical
    let values := (Phase.run settings T).last.assignment
    have hlength : M.vars.length ≤ values.length := by
      rw [Tableau.length_assignment, hequivalent.columns]
      exact h.width_le
    have hown : (values.take M.vars.length).length = M.vars.length := by
      rw [List.length_take]
      omega
    have hentry : ∀ j < M.vars.length, (Phase.run settings T).last.basicPoint j =
        Row.entry (values.take M.vars.length) j := by
      intro j hj
      rw [Row.entry_take, if_pos hj, Tableau.entry_assignment hlast.tolerance_eq]
    have hbasic := (hequivalent.solves_iff _).1 hlast.solves_basicPoint
    -- The assignment solves the first tableau, so its front is a feasible point.
    have hfeasible : M.Feasible (Row.entry (values.take M.vars.length)) :=
      (M.feasible_congr hentry).1 (h.restrict _ (fun j _ => hlast.basicPoint_nonneg j) hbasic)
    have hproject : M.project values = .ok (values.take M.vars.length) := if_pos hlength
    have hevaluate := Model.evaluate_eq_ok hM ho hmax hown
    obtain ⟨s, hs, hverdict⟩ :=
      exists_optimal_of_optimal hending hproject hevaluate phaseOneTableau earlier
    rw [hs]
    refine .optimal hverdict hmax hlength hfeasible rfl fun x hx hbetter => ?_
    -- A better point would extend to a better solution of the first tableau.
    obtain ⟨y, hpos, hsolves, hyx⟩ := h.extend x hx
    have hle := Phase.objectiveAt_le_of_optimal h.canonical hending hpos hsolves
    rw [h.objectiveAt_eq y hsolves, h.objectiveAt_eq _ hbasic, Expression.linear_congr _ hyx,
      Expression.linear_congr _ hentry] at hle
    exact absurd ((o.better_iff _ _ _).1 hbetter) (not_lt.2 hle)

end Phase

end LinProg
