import LinProg.Phase
import LinProg.Proofs.Canonical

/-!
# The course of a phase

`Runs` describes a whole phase as a relation: each step is a pivot that the rule in force chooses
(`Chosen`), the streak and the switch of rules are as recorded, and the end is one of the exits of
the loop. `runs_pivots` says that the computed phase is such a run, and facts about phases are then
proved by induction on the run: what every chosen pivot keeps holds of all tableaux of a phase
(`forall_mem_visited_of_chosen`). Over exact numbers that is the equations and the objective,
whatever the tolerance (`equivalent_of_mem_visited`).

From a canonical tableau without tolerance every step keeps the tableau canonical and equivalent to
the first one, and never makes the objective smaller (`Chosen.canonical`, `Chosen.equivalent`,
`Chosen.rhs_zero_le`). No step fails, so the phase ends in one of the three proper ways
(`pivots_ne_failed`). An optimal end shows a best solution (`objectiveAt_le_of_optimal`), and an
unbounded one solutions beyond every bound (`exists_objectiveAt_gt_of_unbounded`). -/

namespace LinProg

namespace Phase

section Runs

variable {α : Type} [Scalar α]

/-- `U` is `T` after the pivot that the rule chooses. -/
structure Chosen (rule : PivotRule) (T : Tableau α) (column row : ℕ) (U : Tableau α) : Prop where
  /-- The column enters. -/
  entering : T.enteringColumn rule = some column
  /-- Some row limits the column. -/
  limited : T.isUnbounded column = false
  /-- The row leaves. -/
  leaving : T.leavingRow column rule = some row
  /-- The pivot is made. -/
  pivot : T.pivot row column = .ok U

omit [Scalar α] in
/-- A step of Bland's rule is followed by Bland's rule. -/
theorem nextRule_of_bland {step : PivotStep α} (h : step.rule = .bland) :
    step.nextRule = .bland := by
  unfold PivotStep.nextRule
  rw [h, ite_self]

omit [Scalar α] in
/-- A step that does not switch is followed by its own rule. -/
theorem nextRule_of_switches_eq_false {step : PivotStep α} (h : step.switches = false) :
    step.nextRule = step.rule := by
  unfold PivotStep.nextRule
  rw [h, if_neg Bool.false_ne_true]

omit [Scalar α] in
/-- A step that switches is followed by Bland's rule. -/
theorem nextRule_of_switches {step : PivotStep α} (h : step.switches = true) :
    step.nextRule = .bland :=
  if_pos h

/-- The pivots of a phase and its end, from a tableau on, under a rule and after `streak` degenerate
pivots in a row, with so many pivots allowed. -/
inductive Runs (settings : Settings α) :
    (remaining : ℕ) → PivotRule → (streak : ℕ) → Tableau α → List (PivotStep α) → PhaseEnd α → Prop
  /-- No column enters. -/
  | optimal {remaining rule streak T} (hentering : T.enteringColumn rule = none)
      (hoptimal : T.isOptimal = true) : Runs settings remaining rule streak T [] .optimal
  /-- The entering column is unbounded. -/
  | unbounded {remaining rule streak T column} (hentering : T.enteringColumn rule = some column)
      (hunbounded : T.isUnbounded column = true) :
      Runs settings remaining rule streak T [] (.unbounded column)
  /-- A pivot would be needed, and none is left. -/
  | exhausted {rule streak T column} (hentering : T.enteringColumn rule = some column)
      (hlimited : T.isUnbounded column = false) : Runs settings 0 rule streak T [] .exhausted
  /-- The phase cannot go on. -/
  | failed {remaining rule streak T failure} :
      Runs settings remaining rule streak T [] (.failed failure)
  /-- A pivot is made, and the phase goes on from there. -/
  | step {remaining rule streak T step rest ending} (hrule : step.rule = rule)
      (hchosen : Chosen rule T step.column step.row step.tableau)
      (hstreak : step.streak =
        if Scalar.isSignificant settings.tolerance (T.rhs step.row) then 0 else streak + 1)
      (hswitches : step.switches = decide (rule = .dantzig ∧ 0 < step.streak ∧
        settings.degenerateLimit ≤ step.streak))
      (hrest : Runs settings remaining step.nextRule step.streak step.tableau rest ending) :
      Runs settings (remaining + 1) rule streak T (step :: rest) ending

/-- A step that is made is the pivot on the leaving row, with the streak and the switch as they are
recorded. -/
theorem makeStep_eq_ok {settings : Settings α} {rule : PivotRule} {streak : ℕ} {T : Tableau α}
    {column : ℕ} {step : PivotStep α} (h : makeStep settings rule streak T column = .ok step) :
    step.rule = rule ∧ step.column = column ∧ T.leavingRow column rule = some step.row ∧
      T.pivot step.row column = .ok step.tableau ∧
      step.streak =
        (if Scalar.isSignificant settings.tolerance (T.rhs step.row) then 0 else streak + 1) ∧
      step.switches = decide (rule = .dantzig ∧ 0 < step.streak ∧
        settings.degenerateLimit ≤ step.streak) := by
  -- A step is made only when the column, the row, its right-hand side and the pivot are there.
  unfold makeStep Tableau.readLeavingRow at h
  cases hcolumn : T.requireColumn column with
  | error fault => simp [hcolumn, bind, Except.bind, Except.mapError] at h
  | ok _ =>
    cases hrow : T.leavingRow column rule with
    | none =>
      simp [hcolumn, hrow, bind, Except.bind, Except.mapError, pure, Except.pure, throw, throwThe,
        MonadExceptOf.throw] at h
    | some row =>
      cases hrhs : T.readRhs row with
      | error fault =>
        simp [hcolumn, hrow, hrhs, bind, Except.bind, Except.mapError, pure, Except.pure] at h
      | ok level =>
        cases hpivot : T.pivot row column with
        | error fault =>
          simp [hcolumn, hrow, hrhs, hpivot, bind, Except.bind, Except.mapError, pure,
            Except.pure] at h
        | ok U =>
          simp only [hcolumn, hrow, hrhs, hpivot, bind, Except.bind, Except.mapError, pure,
            Except.pure, Except.ok.injEq] at h
          have hlevel := ((DenseMatrix.read_eq_ok_iff T.matrix row T.columns level).1 hrhs).2
          subst h
          subst hlevel
          exact ⟨rfl, rfl, rfl, hpivot, rfl, rfl⟩

/-- A column for which the scan is possible is unbounded or not. -/
theorem isUnbounded_of_readUnbounded {T : Tableau α} {column : ℕ} {b : Bool}
    (h : T.readUnbounded column = .ok b) : T.isUnbounded column = b := by
  unfold Tableau.readUnbounded at h
  cases hcolumn : T.requireColumn column with
  | error fault => simp [hcolumn, bind, Except.bind] at h
  | ok _ => simpa [hcolumn, bind, Except.bind, pure, Except.pure] using h

/-- A row that is read for a column is the one that leaves. -/
theorem leavingRow_of_readLeavingRow {T : Tableau α} {column : ℕ} {rule : PivotRule}
    {row? : Option ℕ} (h : T.readLeavingRow column rule = .ok row?) :
    T.leavingRow column rule = row? := by
  unfold Tableau.readLeavingRow at h
  cases hcolumn : T.requireColumn column with
  | error fault => simp [hcolumn, bind, Except.bind] at h
  | ok _ => simpa [hcolumn, bind, Except.bind, pure, Except.pure] using h

/-- The computed pivots and their end are a run. -/
theorem runs_pivots (settings : Settings α) (remaining : ℕ) (rule : PivotRule) (streak : ℕ)
    (T : Tableau α) :
    Runs settings remaining rule streak T (pivots settings remaining rule streak T).1
      (pivots settings remaining rule streak T).2 := by
  fun_induction pivots settings remaining rule streak T with
  | case1 remaining rule streak T hentering =>
    by_cases hoptimal : T.isOptimal = true
    · rw [if_pos hoptimal]
      exact .optimal hentering hoptimal
    · rw [if_neg hoptimal]
      exact .failed
  | case2 => exact .failed
  | case3 remaining rule streak T column hentering hread =>
    exact .unbounded hentering (isUnbounded_of_readUnbounded hread)
  | case4 rule streak T column hentering hread =>
    exact .exhausted hentering (isUnbounded_of_readUnbounded hread)
  | case5 => exact .failed
  | case6 rule streak T column hentering hread remaining step hstep rest ih =>
    obtain ⟨hrule, hcolumn, hleaving, hpivot, hstreak, hswitches⟩ := makeStep_eq_ok hstep
    rw [← hcolumn] at hentering hleaving hpivot
    have hlimited := isUnbounded_of_readUnbounded hread
    rw [← hcolumn] at hlimited
    exact .step hrule ⟨hentering, hlimited, hleaving, hpivot⟩ hstreak hswitches ih

/-- What every pivot that a rule chooses keeps holds of all tableaux of a run. -/
theorem Runs.forall_mem_of_chosen {P : Tableau α → Prop}
    (hkeep : ∀ {rule T column row U}, Chosen rule T column row U → P T → P U)
    {settings : Settings α} {remaining streak : ℕ} {rule : PivotRule} {T : Tableau α}
    {steps : List (PivotStep α)} {ending : PhaseEnd α}
    (h : Runs settings remaining rule streak T steps ending) (hT : P T) :
    ∀ step ∈ steps, P step.tableau := by
  induction h with
  | optimal | unbounded | exhausted | failed => exact nofun
  | step _ hchosen _ _ _ ih =>
    have hU := hkeep hchosen hT
    exact List.forall_mem_cons.2 ⟨hU, ih hU⟩

/-- What every pivot that a rule chooses keeps holds of all tableaux of a phase. -/
theorem forall_mem_visited_of_chosen {P : Tableau α → Prop}
    (hkeep : ∀ {rule T column row U}, Chosen rule T column row U → P T → P U)
    (settings : Settings α) {T : Tableau α} (hT : P T) :
    ∀ U ∈ (Phase.run settings T).visited, P U := by
  unfold visited
  rw [start_run, List.forall_mem_cons, List.forall_mem_map]
  exact ⟨hT, (runs_pivots settings _ _ _ T).forall_mem_of_chosen hkeep hT⟩

/-- The tableau after some steps. -/
def lastFrom (T : Tableau α) (steps : List (PivotStep α)) : Tableau α :=
  (steps.getLast?.map (·.tableau)).getD T

omit [Scalar α] in
/-- After a step the rest starts from its tableau. -/
theorem lastFrom_cons (T : Tableau α) (step : PivotStep α) (rest : List (PivotStep α)) :
    lastFrom T (step :: rest) = lastFrom step.tableau rest := by
  unfold lastFrom
  rw [List.getLast?_cons]
  cases rest.getLast? <;> rfl

/-- At an optimal end no column enters. -/
theorem Runs.enteringColumn_of_optimal {settings : Settings α} {remaining streak : ℕ}
    {rule : PivotRule} {T : Tableau α} {steps : List (PivotStep α)}
    (h : Runs settings remaining rule streak T steps .optimal) :
    ∃ rule, (lastFrom T steps).enteringColumn rule = none := by
  generalize hending : PhaseEnd.optimal = ending at h
  induction h with
  | optimal hentering _ => exact ⟨_, hentering⟩
  | unbounded | exhausted | failed => exact absurd hending nofun
  | step _ _ _ _ _ ih =>
    rw [lastFrom_cons]
    exact ih hending

/-- At an unbounded end the column enters and is unbounded. -/
theorem Runs.isUnbounded_of_unbounded {settings : Settings α} {remaining streak column : ℕ}
    {rule : PivotRule} {T : Tableau α} {steps : List (PivotStep α)}
    (h : Runs settings remaining rule streak T steps (.unbounded column)) :
    ∃ rule, (lastFrom T steps).enteringColumn rule = some column ∧
      (lastFrom T steps).isUnbounded column = true := by
  generalize hending : PhaseEnd.unbounded column = ending at h
  induction h with
  | unbounded hentering hunbounded =>
    cases hending
    exact ⟨_, hentering, hunbounded⟩
  | optimal | exhausted | failed => exact absurd hending nofun
  | step _ _ _ _ _ ih =>
    rw [lastFrom_cons]
    exact ih hending

/-- A phase that is cut short has made all pivots allowed. -/
theorem Runs.length_of_exhausted {settings : Settings α} {remaining streak : ℕ}
    {rule : PivotRule} {T : Tableau α} {steps : List (PivotStep α)}
    (h : Runs settings remaining rule streak T steps .exhausted) : steps.length = remaining := by
  generalize hending : PhaseEnd.exhausted = ending at h
  induction h with
  | exhausted => rfl
  | optimal | unbounded | failed => exact absurd hending nofun
  | step _ _ _ _ _ ih => rw [List.length_cons, ih hending]

end Runs

/-- Without a negative tolerance every tableau of a phase has the equations and the objective of the
first one. -/
theorem equivalent_of_mem_visited (settings : Settings ℚ) {T : Tableau ℚ}
    (htol : 0 ≤ T.tolerance) :
    ∀ U ∈ (Phase.run settings T).visited, U.tolerance = T.tolerance ∧ T.Equivalent U := by
  refine forall_mem_visited_of_chosen (fun {_ V _ row _} hchosen hV => ?_) settings ⟨rfl, .refl T⟩
  obtain ⟨htolerance, hequivalent⟩ := hV
  have hpivot := Tableau.pivotOf_of_eq_ok (by rw [htolerance]; exact htol) hchosen.pivot
  have hrow := ((V.mem_constraintRows row).1
    (Tableau.mem_constraintRows_of_leavingRow hchosen.leaving)).1
  exact ⟨hpivot.tolerance.trans htolerance, hequivalent.trans (hpivot.equivalent hrow)⟩

/-! ## A step from a canonical tableau -/

section Exact

variable {rule : PivotRule} {T U : Tableau ℚ} {column row : ℕ}

/-- The step is a pivot. -/
theorem Chosen.pivotOf (h : Chosen rule T column row U) (hT : T.Canonical) :
    T.PivotOf row column U :=
  Tableau.pivotOf_of_eq_ok hT.tolerance_eq.ge h.pivot

/-- The column improves the objective, and no column before it has the same objective entry. -/
theorem Chosen.column_spec (h : Chosen rule T column row U) (hT : T.Canonical) :
    column < T.columns ∧ T.entry 0 column < 0 ∧ ∀ j < column, T.entry 0 j ≠ T.entry 0 column := by
  have := Tableau.enteringColumn_eq_some hT.tolerance_eq.ge h.entering
  rwa [hT.tolerance_eq, neg_zero] at this

/-- The row is a constraint row with a positive entry and the least ratio. -/
theorem Chosen.row_spec (h : Chosen rule T column row U) (hT : T.Canonical) :
    row ≠ 0 ∧ 0 < T.entry row column ∧ ∀ i ≠ 0, 0 < T.entry i column →
      T.rhs row / T.entry row column ≤ T.rhs i / T.entry i column := by
  obtain ⟨hrow, hpos, hratio⟩ := Tableau.leavingRow_eq_some hT.tolerance_eq.ge h.leaving
  rw [hT.tolerance_eq] at hpos
  refine ⟨((T.mem_constraintRows row).1 hrow).1, hpos, fun i hi hpos' => ?_⟩
  have := hratio i
    ((T.mem_constraintRows i).2 ⟨hi, Tableau.lt_height_of_entry_ne_zero hpos'.ne'⟩)
    (by rw [hT.tolerance_eq]; exact hpos')
  rwa [hT.tolerance_eq, add_zero] at this

/-- A step keeps a tableau canonical. -/
theorem Chosen.canonical (h : Chosen rule T column row U) (hT : T.Canonical) : U.Canonical := by
  obtain ⟨hcolumn, -, -⟩ := h.column_spec hT
  obtain ⟨hrow, hpos, hratio⟩ := h.row_spec hT
  exact (h.pivotOf hT).canonical hT hrow hcolumn hpos hratio

/-- A step keeps the equations and the objective. -/
theorem Chosen.equivalent (h : Chosen rule T column row U) (hT : T.Canonical) :
    T.Equivalent U :=
  (h.pivotOf hT).equivalent (h.row_spec hT).1

/-- A step changes the objective value by the reduced cost times the step length. -/
theorem Chosen.rhs_zero (h : Chosen rule T column row U) (hT : T.Canonical) :
    U.rhs 0 = T.rhs 0 - T.entry 0 column * (T.rhs row / T.entry row column) := by
  rw [(h.pivotOf hT).rhs, if_neg (h.row_spec hT).1.symm]

/-- A step never makes the objective value smaller. -/
theorem Chosen.rhs_zero_le (h : Chosen rule T column row U) (hT : T.Canonical) :
    T.rhs 0 ≤ U.rhs 0 := by
  obtain ⟨-, hcost, -⟩ := h.column_spec hT
  obtain ⟨hrow, hpos, -⟩ := h.row_spec hT
  have hlength := div_nonneg (hT.rhs_nonneg row hrow) hpos.le
  have := mul_nonpos_of_nonpos_of_nonneg hcost.le hlength
  rw [h.rhs_zero hT]
  linarith

/-- A step makes the objective value larger when the right-hand side of its row is not zero. -/
theorem Chosen.rhs_zero_lt (h : Chosen rule T column row U) (hT : T.Canonical)
    (hne : T.rhs row ≠ 0) : T.rhs 0 < U.rhs 0 := by
  obtain ⟨-, hcost, -⟩ := h.column_spec hT
  obtain ⟨hrow, hpos, -⟩ := h.row_spec hT
  have hlength := div_pos ((hT.rhs_nonneg row hrow).lt_of_ne' hne) hpos
  have := mul_neg_of_neg_of_pos hcost hlength
  rw [h.rhs_zero hT]
  linarith

/-- The basic column of the row of a step is its column. -/
theorem Chosen.basicColumn_row (h : Chosen rule T column row U) (hT : T.Canonical) :
    U.basicColumn row = some column := by
  obtain ⟨hcolumn, -, hfirst⟩ := h.column_spec hT
  exact (h.pivotOf hT).basicColumn_row hT (h.row_spec hT).1 hcolumn hfirst

/-- A step keeps the basic columns of the other rows. -/
theorem Chosen.basicColumn_of_ne (h : Chosen rule T column row U) (hT : T.Canonical) {i : ℕ}
    (hi : i ≠ row) : U.basicColumn i = T.basicColumn i :=
  (h.pivotOf hT).basicColumn_of_ne hT (h.row_spec hT).1 hi

/-! ## The phase -/

variable {settings : Settings ℚ} {remaining streak : ℕ} {steps : List (PivotStep ℚ)}
  {ending : PhaseEnd ℚ}

/-- Every tableau of a phase is canonical and equivalent to the first. -/
theorem Runs.forall_mem (h : Runs settings remaining rule streak T steps ending)
    (hT : T.Canonical) : ∀ step ∈ steps, step.tableau.Canonical ∧ T.Equivalent step.tableau :=
  h.forall_mem_of_chosen (P := fun U => U.Canonical ∧ T.Equivalent U)
    (fun hchosen hU => ⟨hchosen.canonical hU.1, hU.2.trans (hchosen.equivalent hU.1)⟩)
    ⟨hT, .refl T⟩

/-- The last tableau of a phase is canonical and equivalent to the first. -/
theorem Runs.lastFrom_spec (h : Runs settings remaining rule streak T steps ending)
    (hT : T.Canonical) : (lastFrom T steps).Canonical ∧ T.Equivalent (lastFrom T steps) := by
  unfold lastFrom
  cases hlast : steps.getLast? with
  | none => exact ⟨hT, .refl T⟩
  | some step => exact h.forall_mem hT step (List.mem_of_getLast? hlast)

/-- A step can be made when a column enters and is not unbounded. -/
theorem exists_makeStep_eq_ok (hT : T.Canonical) (hentering : T.enteringColumn rule = some column)
    (hlimited : T.isUnbounded column = false) :
    ∃ step, makeStep settings rule streak T column = .ok step := by
  obtain ⟨hcolumn, -, -⟩ := Tableau.enteringColumn_eq_some hT.tolerance_eq.ge hentering
  obtain ⟨row, hleaving⟩ := Tableau.exists_leavingRow hT.tolerance_eq.ge rule hlimited
  obtain ⟨hrow, hpos, -⟩ := Tableau.leavingRow_eq_some hT.tolerance_eq.ge hleaving
  have hlt := ((T.mem_constraintRows row).1 hrow).2
  obtain ⟨U, hpivot⟩ := Tableau.exists_pivot_eq_ok hlt hcolumn.le
    (lt_of_lt_of_le hpos (le_abs_self _))
  -- Nothing is read outside the matrix.
  have hrequire : T.requireColumn column = .ok () := if_pos (Or.inl hcolumn.le)
  have hrhs : T.readRhs row = .ok (T.rhs row) :=
    (DenseMatrix.read_eq_ok_iff T.matrix row T.columns _).2 ⟨⟨hlt, Nat.lt_succ_self _⟩, rfl⟩
  unfold makeStep Tableau.readLeavingRow
  simp only [hrequire, hleaving, hrhs, hpivot, bind, Except.bind, Except.mapError, pure,
    Except.pure]
  exact ⟨_, rfl⟩

/-- From a canonical tableau a phase never fails. -/
theorem pivots_ne_failed (settings : Settings ℚ) (remaining : ℕ) (rule : PivotRule) (streak : ℕ)
    (hT : T.Canonical) (failure : Failure ℚ) :
    (pivots settings remaining rule streak T).2 ≠ .failed failure := by
  -- An entering column is one of the tableau, so the scan for its limit is possible.
  have hread : ∀ (T : Tableau ℚ) (rule : PivotRule) (column : ℕ), T.Canonical →
      T.enteringColumn rule = some column →
      T.readUnbounded column = .ok (T.isUnbounded column) := by
    intro T rule column hT hentering
    obtain ⟨hcolumn, -, -⟩ := Tableau.enteringColumn_eq_some hT.tolerance_eq.ge hentering
    have hrequire : T.requireColumn column = .ok () := if_pos (Or.inl hcolumn.le)
    simp [Tableau.readUnbounded, hrequire, bind, Except.bind, pure, Except.pure]
  fun_induction pivots settings remaining rule streak T with
  | case1 remaining rule streak T hentering =>
    rw [if_pos (Tableau.isOptimal_of_enteringColumn_eq_none hT.tolerance_eq.ge hentering)]
    simp
  | case2 remaining rule streak T column hentering fault hfault =>
    rw [hread T rule column hT hentering] at hfault
    cases hfault
  | case3 => simp
  | case4 => simp
  | case5 rule streak T column hentering hlimited remaining failure' hfailure =>
    obtain ⟨step, hstep⟩ : ∃ step, makeStep settings rule streak T column = .ok step :=
      exists_makeStep_eq_ok hT hentering (isUnbounded_of_readUnbounded hlimited)
    rw [hstep] at hfailure
    cases hfailure
  | case6 rule streak T column hentering hlimited remaining step hstep rest ih =>
    obtain ⟨-, hcolumn, hleaving, hpivot, -, -⟩ := makeStep_eq_ok hstep
    have hchosen : Chosen rule T column step.row step.tableau :=
      ⟨hentering, isUnbounded_of_readUnbounded hlimited, hleaving, hpivot⟩
    exact ih (hchosen.canonical hT)

end Exact

/-! ## What the end of a phase shows -/

section Ends

variable {settings : Settings ℚ} {T : Tableau ℚ}

/-- The last tableau of a phase from a canonical one is canonical and equivalent to it. -/
theorem last_run_spec (settings : Settings ℚ) (hT : T.Canonical) :
    (Phase.run settings T).last.Canonical ∧ T.Equivalent (Phase.run settings T).last :=
  (Phase.runs_pivots settings settings.maxIterations settings.rule 0 T).lastFrom_spec hT

/-- At an optimal end the last tableau has no negative reduced cost. -/
theorem nonneg_of_optimal (hT : T.Canonical)
    (h : (Phase.run settings T).ending = .optimal) :
    ∀ j < (Phase.run settings T).last.columns, 0 ≤ (Phase.run settings T).last.entry 0 j := by
  have htol := (Phase.last_run_spec settings hT).1.tolerance_eq
  have hruns := Phase.runs_pivots settings settings.maxIterations settings.rule 0 T
  rw [show (Phase.pivots settings settings.maxIterations settings.rule 0 T).2 = .optimal from h]
    at hruns
  obtain ⟨rule, hrule⟩ := hruns.enteringColumn_of_optimal
  have hle := Tableau.le_of_enteringColumn_eq_none (T := (Phase.run settings T).last) htol.ge hrule
  rwa [htol, neg_zero] at hle

/-- At an unbounded end the objective of the last tableau grows beyond every bound. -/
theorem exists_objectiveAt_gt_of_unbounded (hT : T.Canonical) {column : ℕ}
    (h : (Phase.run settings T).ending = .unbounded column) (K : ℚ) :
    ∃ x, T.Solves x ∧ (∀ j, 0 ≤ x j) ∧ K < T.objectiveAt x := by
  obtain ⟨hlast, hequivalent⟩ := Phase.last_run_spec settings hT
  have htol := hlast.tolerance_eq
  have hruns := Phase.runs_pivots settings settings.maxIterations settings.rule 0 T
  rw [show (Phase.pivots settings settings.maxIterations settings.rule 0 T).2 =
    .unbounded column from h] at hruns
  obtain ⟨rule, hentering, hunbounded⟩ := hruns.isUnbounded_of_unbounded
  obtain ⟨hcolumn, hcost, -⟩ := Tableau.enteringColumn_eq_some
    (T := (Phase.run settings T).last) htol.ge hentering
  have hcost' : (Phase.run settings T).last.entry 0 column < 0 := by
    rw [htol, neg_zero] at hcost
    exact hcost
  have hunlimited : ∀ i ≠ 0, (Phase.run settings T).last.entry i column ≤ 0 := by
    intro i hi
    rcases lt_or_ge i (Phase.run settings T).last.matrix.height with hlt | hbelow
    · have hle := ((Phase.run settings T).last.isUnbounded_iff column).1 hunbounded i
        (((Phase.run settings T).last.mem_constraintRows i).2 ⟨hi, hlt⟩)
      rwa [htol] at hle
    · exact ((Phase.run settings T).last.entry_eq_zero_of_height_le hbelow column).le
  obtain ⟨x, hsolves, hpos, hgt⟩ := hlast.exists_objectiveAt_gt hcolumn hcost' hunlimited K
  have hx := (hequivalent.solves_iff x).1 hsolves
  exact ⟨x, hx, hpos, by rw [← hequivalent.objectiveAt_eq hx]; exact hgt⟩

/-- At an optimal end no solution without negative values has a better objective than the basic
point of the last tableau. -/
theorem objectiveAt_le_of_optimal (hT : T.Canonical)
    (h : (Phase.run settings T).ending = .optimal) {y : ℕ → ℚ} (hpos : ∀ j < T.columns, 0 ≤ y j)
    (hy : T.Solves y) :
    T.objectiveAt y ≤ T.objectiveAt (Phase.run settings T).last.basicPoint := by
  obtain ⟨hlast, hequivalent⟩ := Phase.last_run_spec settings hT
  have hbasic := (hequivalent.solves_iff _).1 hlast.solves_basicPoint
  have hpos' : ∀ j < (Phase.run settings T).last.columns, 0 ≤ y j := by
    rw [hequivalent.columns]
    exact hpos
  calc T.objectiveAt y = (Phase.run settings T).last.objectiveAt y :=
        (hequivalent.objectiveAt_eq hy).symm
    _ ≤ (Phase.run settings T).last.objectiveValue :=
        Tableau.objectiveAt_le_of_nonneg (Phase.nonneg_of_optimal hT h) hpos'
    _ = (Phase.run settings T).last.objectiveAt (Phase.run settings T).last.basicPoint :=
        hlast.objectiveAt_basicPoint.symm
    _ = T.objectiveAt (Phase.run settings T).last.basicPoint :=
        hequivalent.objectiveAt_eq hbasic

end Ends

end Phase

end LinProg
