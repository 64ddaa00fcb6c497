import LinProg.Proofs.ClearedRows
import LinProg.Proofs.Equivalence
import LinProg.Proofs.Expulsion
import LinProg.Proofs.Margin
import LinProg.Proofs.Shapes

/-!
# Feasible within the tolerance

How far an optimal assignment can be from satisfying its model, whatever the tolerance. All pivots
are exact, and so is dropping the artificial columns. Equations of the standard form are lost only
when a row is cleared that is not zero. So at a solution of the last tableau none of them is missed
by more than the rows that are cleared are (`Model.HasPhase.last_standsFor`), and the inequalities
of the model are missed by no more than that and by how much the solution is below zero. When its
basis can be read off, the basic point is such a solution, and the assignment is this point, with
zero for what is within the tolerance.

The basic point is not below zero when each pivot is on a positive entry with the least ratio and no
artificial variable that is still basic has a value (`Phase.Limited`). The tolerance is not scaled
to the numbers of a model, so it can go against all of this: a coefficient that it takes for zero
does not limit a column, a ratio that it takes for a tie is not the least one, and a value that it
takes for zero is still there when its column is driven out or its row is cleared.

`Model.solve_feasible_within` puts this together with the margin, below which no number that decides
anything is taken for zero when it is not. -/

namespace LinProg

/-! ## Pivots that keep the right-hand sides -/

namespace Tableau

variable {T : Tableau ℚ} {row column : ℕ}

/-- The entry is positive, and its ratio is the least among those of the positive entries of the
column. -/
def Limits (T : Tableau ℚ) (row column : ℕ) : Prop :=
  0 < T.entry row column ∧ ∀ i ∈ T.constraintRows, 0 < T.entry i column →
    T.rhs row / T.entry row column ≤ T.rhs i / T.entry i column

instance (T : Tableau ℚ) (row column : ℕ) : Decidable (T.Limits row column) :=
  inferInstanceAs (Decidable (_ ∧ ∀ i ∈ T.constraintRows, _ → _))

/-- No row with a positive entry limits the column more. -/
theorem Limits.ratio_le (h : T.Limits row column) {i : ℕ} (hi : i ≠ 0)
    (hpos : 0 < T.entry i column) :
    T.rhs row / T.entry row column ≤ T.rhs i / T.entry i column :=
  h.2 i ((T.mem_constraintRows i).2 ⟨hi, lt_height_of_entry_ne_zero hpos.ne'⟩) hpos

end Tableau

namespace Phase

/-- Each pivot is on a row that limits its column, and a basic column from the width on has the
value zero at the end. -/
def Limited (width : ℕ) (phase : Phase ℚ) : Prop :=
  (∀ p ∈ phase.visited.zip phase.steps, p.1.Limits p.2.row p.2.column) ∧
    ∀ p ∈ phase.last.basicPlaces, width ≤ p.2 → phase.last.rhs p.1 = 0

instance (width : ℕ) (phase : Phase ℚ) : Decidable (phase.Limited width) :=
  inferInstanceAs (Decidable ((∀ p ∈ phase.visited.zip phase.steps, _) ∧
    ∀ p ∈ phase.last.basicPlaces, _ → _))

variable {settings : Settings ℚ} {T : Tableau ℚ}

/-- Pivots on rows that limit their columns keep the right-hand sides from being negative. -/
theorem Runs.rhs_nonneg {remaining streak : ℕ} {rule : PivotRule} {steps : List (PivotStep ℚ)}
    {ending : PhaseEnd ℚ} (h : Runs settings remaining rule streak T steps ending)
    (htol : 0 ≤ T.tolerance) (hrhs : ∀ i ≠ 0, 0 ≤ T.rhs i)
    (hlimits : ∀ p ∈ (T :: steps.map (·.tableau)).zip steps, p.1.Limits p.2.row p.2.column) :
    ∀ step ∈ steps, ∀ i ≠ 0, 0 ≤ step.tableau.rhs i := by
  induction h with
  | optimal | unbounded | exhausted | failed => exact nofun
  | @step _ _ _ T step _ _ _ hchosen _ _ _ ih =>
    rw [List.map_cons, List.zip_cons_cons, List.forall_mem_cons] at hlimits
    obtain ⟨hlimit, hlimits⟩ := hlimits
    have hpivot := Tableau.pivotOf_of_eq_ok htol hchosen.pivot
    have hrow := ((T.mem_constraintRows step.row).1
      (Tableau.mem_constraintRows_of_leavingRow hchosen.leaving)).1
    have hstep := hpivot.rhs_nonneg hrhs hrow hlimit.1 fun i hi => hlimit.ratio_le hi
    exact List.forall_mem_cons.2 ⟨hstep, ih (by rw [hpivot.tolerance]; exact htol) hstep hlimits⟩

/-- No right-hand side is negative at the end of a phase with such pivots. -/
theorem Limited.rhs_nonneg {width : ℕ} (h : (run settings T).Limited width)
    (htol : 0 ≤ T.tolerance) (hrhs : ∀ i ≠ 0, 0 ≤ T.rhs i) :
    ∀ i ≠ 0, 0 ≤ (run settings T).last.rhs i := by
  have hruns := runs_pivots settings settings.maxIterations settings.rule 0 T
  rcases List.mem_cons.1 (run settings T).last_mem_visited with hlast | hlast
  · rw [hlast]
    exact hrhs
  · obtain ⟨step, hstep, hlast⟩ := List.mem_map.1 hlast
    rw [← hlast]
    exact hruns.rhs_nonneg htol hrhs h.1 step hstep

end Phase

/-! ## The equations of the last tableau -/

/-- The rows that are cleared after the phases among the events, each with the tableau in which it
is. -/
def clearedRows : List (Event ℚ) → List (Tableau ℚ × ℕ)
  | [] => []
  | .phase _ phase :: events => phase.last.cleared events ++ clearedRows events
  | _ :: events => clearedRows events

/-- The rows that events clear after a phase are among the rows cleared, also when other events
follow. -/
theorem mem_clearedRows (number : ℕ) {phase : Phase ℚ} {events : List (Event ℚ)}
    {p : Tableau ℚ × ℕ} (h : p ∈ phase.last.cleared events) (later : List (Event ℚ)) :
    p ∈ clearedRows (.phase number phase :: (events ++ later)) := by
  refine List.mem_append_left _ ?_
  rw [Tableau.cleared_append]
  exact List.mem_append_left _ h

namespace Model

/-- No row that the solve clears is missed by more than the gap at a point of the standard form,
with zeros for the artificial variables. -/
def MeetsCleared (M : Model ℚ) (settings : Settings ℚ) (gap : ℚ) (y : ℕ → ℚ) : Prop :=
  ∀ p ∈ clearedRows (M.solve settings).events,
    |p.1.missedBy p.2 (padded (StandardForm.ofModel M).model.vars.length y)| ≤ gap

instance (M : Model ℚ) (settings : Settings ℚ) (gap : ℚ) (y : ℕ → ℚ) :
    Decidable (M.MeetsCleared settings gap y) :=
  inferInstanceAs (Decidable (∀ p ∈ clearedRows (M.solve settings).events, _ ≤ gap))

/-- Each pivot of the solve is on a row that limits its column, and at the end of phase one no
artificial variable is basic with a value. -/
def Limited (M : Model ℚ) (settings : Settings ℚ) : Prop :=
  ∀ p ∈ (M.solve settings).events.filterMap Event.phase?,
    p.2.Limited (StandardForm.ofModel M).model.vars.length

instance (M : Model ℚ) (settings : Settings ℚ) : Decidable (M.Limited settings) :=
  inferInstanceAs (Decidable (∀ p ∈ (M.solve settings).events.filterMap Event.phase?, _))

/-- The tableau is one of phase two: its columns are the variables of the standard form, and its
solutions miss the constraints by no more than the rows that are cleared. -/
structure StandsFor (M : Model ℚ) (settings : Settings ℚ) (T : Tableau ℚ) : Prop where
  /-- The tolerance is that of the settings. -/
  tolerance : T.tolerance = settings.tolerance
  /-- The columns are the variables. -/
  columns : T.columns = (StandardForm.ofModel M).model.vars.length
  /-- At a solution no constraint is missed by more than the gap that the cleared rows leave. -/
  abs_slack_le : ∀ {y : ℕ → ℚ} {gap : ℚ}, T.Solves y → 0 ≤ gap → M.MeetsCleared settings gap y →
    ∀ c ∈ (StandardForm.ofModel M).model.constraints,
      |c.slack (StandardForm.ofModel M).model.vars.length y| ≤ gap
  /-- No right-hand side is negative if each pivot limits its column. -/
  rhs_nonneg : M.Limited settings → ∀ i ≠ 0, 0 ≤ T.rhs i

section Phases

variable {M : Model ℚ} {o : Objective ℚ} {settings : Settings ℚ} {initial restored : Tableau ℚ}
  {iterations : ℕ} {phase : Phase ℚ}

/-- A phase of a solve in which each pivot limits its column is such a phase. -/
theorem Limited.of_hasPhase (h : M.Limited settings) (ho : M.objective = some o)
    (hsome : M.constraints.isEmpty = false) {number : ℕ}
    (hphase : M.HasPhase settings number phase) :
    phase.Limited (StandardForm.ofModel M).model.vars.length :=
  h (number, phase) (Event.mem_filterMap_phase?_iff.2 (hphase.mem_events ho hsome))

/-- At a solution of the standard form that is not below zero by more than an excess the model is
feasible within this excess and the gap by which the constraints are missed. -/
theorem StandsFor.feasibleWithin {T : Tableau ℚ} (h : M.StandsFor settings T) (hM : M.Scoped)
    {y : ℕ → ℚ} {gap excess : ℚ} (hy : T.Solves y) (hgap : 0 ≤ gap)
    (hmeets : M.MeetsCleared settings gap y) (hexcess : ∀ j < T.columns, -excess ≤ y j) :
    M.FeasibleWithin gap excess y := by
  have hstandard := StandardForm.isStandard_ofModel hM
  rw [h.columns] at hexcess
  refine (StandardForm.ofModel_extends hM).restrict_within gap excess y ⟨hexcess, fun c hc => ?_⟩
  exact (Constraint.holdsWithin_of_equal (hstandard.relation_eq c hc) _ _ _ _).2
    (h.abs_slack_le hy hgap hmeets c hc)

/-- Phase two starts from the last tableau of phase one, without the artificial columns, and the
rows that are cleared as they are driven out are among those of the solve. -/
theorem exists_restoredFrom_of_phaseOne (hM : M.Scoped) (ho : M.objective = some o)
    (hsome : M.constraints.isEmpty = false) (hnonneg : 0 ≤ settings.tolerance)
    (hneeds : (StandardForm.ofModel M).needsPhaseOne = true)
    (h : ((StandardForm.ofModel M).phaseOne settings).result =
      .ok (.feasible initial restored iterations)) :
    ∃ program U S, ProgramOf (StandardForm.ofModel M) program ∧
      (StandardForm.ofModel M).phaseOneProgram = .ok program ∧
      program.tableau settings.tolerance = .ok initial ∧
      ((Phase.run settings initial).last.expunge settings.tolerance program.artificials).result =
        .ok U ∧
      (∀ p ∈ (Phase.run settings initial).last.cleared
          ((Phase.run settings initial).last.expunge settings.tolerance
            program.artificials).events, p ∈ clearedRows (M.solve settings).events) ∧
      U.tolerance = settings.tolerance ∧
      (StandardForm.ofModel M).model.vars.length ≤ U.columns ∧
      U.RestoredFrom (StandardForm.ofModel M).model o.asMaximization S ∧
      S.Repriced U.basicPlaces restored := by
  have hstandard := StandardForm.isStandard_ofModel hM
  obtain ⟨program, levels, U, hprogram, hinitial, hending, hlevels, hnone, hU, hR⟩ :=
    StandardForm.exists_of_phaseOne_eq_feasible h
  have hof := programOf_of_eq_ok hstandard (StandardForm.length_slacks_ofModel M) hprogram
  obtain ⟨hlast, hcolumns, hheight, -, -⟩ := last_phaseOne_spec hM hnonneg hprogram hof hinitial
  obtain ⟨hmodel, htolerance, hrows⟩ := Tableau.shape_of_expunge_eq_ok hU
  have hUcolumns := (Tableau.columns_eq_of_model_eq hmodel).trans hcolumns
  have hUtolerance := htolerance.trans hlast
  obtain ⟨hle, hartificials, -⟩ := hof.artificials_of_columns hUcolumns
  rw [← hUtolerance] at hR
  obtain ⟨S, hrestored, hpriced⟩ := Tableau.exists_restoredFrom_of_restore hstandard.toScoped
    (StandardForm.objective_ofModel ho) (hof.width_le.trans (hof.le_maxDenseLength hinitial)) hle
    (by rw [hrows, hheight]; exact Nat.succ_pos _) hartificials hR
  refine ⟨program, U, S, hof, hprogram, hinitial, hU, fun p hp => ?_, hUtolerance, hle, hrestored,
    Tableau.repriced_of_eq_ok (fun q hq => Tableau.row_ne_zero_of_mem_basicPlaces hq) hpriced⟩
  obtain ⟨later, hevents, -⟩ := exists_events_solve settings ho hsome hneeds
  rw [hevents, StandardForm.events_phaseOne hprogram hinitial hending hlevels hnone]
  exact mem_clearedRows 1 hp later

/-- Driving out the artificial columns keeps the right-hand sides from being negative, when each
pivot of phase one limits its column and no artificial variable that is basic at the end has a
value. -/
theorem rhs_nonneg_of_expunge {program : PhaseOneProgram ℚ} {U : Tableau ℚ} (hM : M.Scoped)
    (hnonneg : 0 ≤ settings.tolerance) (hhalf : settings.tolerance < 1 / 2)
    (hof : ProgramOf (StandardForm.ofModel M) program)
    (hprogram : (StandardForm.ofModel M).phaseOneProgram = .ok program)
    (hinitial : program.tableau settings.tolerance = .ok initial)
    (hU : ((Phase.run settings initial).last.expunge settings.tolerance
      program.artificials).result = .ok U)
    (hlimited : (Phase.run settings initial).Limited (StandardForm.ofModel M).model.vars.length) :
    ∀ i ≠ 0, 0 ≤ U.rhs i := by
  obtain ⟨hlast, hcolumns, -, -, -⟩ := last_phaseOne_spec hM hnonneg hprogram hof hinitial
  have hrhs := hlimited.rhs_nonneg (by rw [(hof.shape hinitial).1]; exact hnonneg)
    (hof.rhs_nonneg hinitial)
  have hbasic := hlimited.2
  generalize (Phase.run settings initial).last = last at *
  obtain ⟨hle, -, hfirst⟩ := hof.artificials_of_columns hcolumns
  rw [← hlast] at hU hnonneg hhalf
  have hzero : ∀ row c, last.basicColumn row = some c →
      last.firstArtificial program.artificials ≤ c → last.rhs row = 0 := by
    intro row c hc hge
    rw [hfirst] at hge
    have hrow := Tableau.mem_constraintRows_of_basicColumn hhalf hc
    exact hbasic (row, c) ((last.mem_basicPlaces_iff _).2 ⟨hrow, hc⟩) hge
  obtain ⟨hkeep, -⟩ := Tableau.rhs_of_expunge hnonneg (by rw [hfirst]; exact hle) hzero hU
  intro i hi
  rw [hkeep]
  exact hrhs i hi

/-- A solution after the artificial columns are driven out, with zeros for the artificial variables,
misses the constraints of the standard form by no more than the rows that are cleared. -/
theorem abs_slack_le_of_expunge {program : PhaseOneProgram ℚ} {U : Tableau ℚ} (hM : M.Scoped)
    (hnonneg : 0 ≤ settings.tolerance) (hhalf : settings.tolerance < 1 / 2)
    (hof : ProgramOf (StandardForm.ofModel M) program)
    (hprogram : (StandardForm.ofModel M).phaseOneProgram = .ok program)
    (hinitial : program.tableau settings.tolerance = .ok initial)
    (hU : ((Phase.run settings initial).last.expunge settings.tolerance
      program.artificials).result = .ok U) {y : ℕ → ℚ} {gap : ℚ} (hgap : 0 ≤ gap)
    (hmissed : ∀ p ∈ (Phase.run settings initial).last.cleared
        ((Phase.run settings initial).last.expunge settings.tolerance program.artificials).events,
      |p.1.missedBy p.2 (padded (StandardForm.ofModel M).model.vars.length y)| ≤ gap)
    (hy : U.Solves (padded (StandardForm.ofModel M).model.vars.length y)) :
    ∀ c ∈ (StandardForm.ofModel M).model.constraints,
      |c.slack (StandardForm.ofModel M).model.vars.length y| ≤ gap := by
  obtain ⟨hlast, hcolumns, -, -, hbasic⟩ := last_phaseOne_spec hM hnonneg hprogram hof hinitial
  have hequivalent := (Phase.equivalent_of_mem_visited settings
    (by rw [(hof.shape hinitial).1]; exact hnonneg) _
    (Phase.run settings initial).last_mem_visited).2
  generalize (Phase.run settings initial).last = last at *
  obtain ⟨hle, -, hfirst⟩ := hof.artificials_of_columns hcolumns
  rw [← hlast] at hU hmissed hnonneg hhalf
  obtain ⟨z, hz, hsame, hclose⟩ := Tableau.exists_solves_of_expunge hnonneg
    (hhalf.trans one_half_lt_one) (by rw [hfirst]; exact hle)
    (fun i hi => (hbasic i hi).imp fun c hc => hc.unitIn) hgap hmissed hU hy
  rw [hfirst] at hsame
  have hsmall : ∀ j, (StandardForm.ofModel M).model.vars.length ≤ j → |z j| ≤ gap := by
    intro j hj
    have hj' := hclose j
    rwa [padded_of_le y hj, sub_zero] at hj'
  intro c hc
  rw [c.slack_congr fun j hj => (padded_of_lt y hj).symm.trans (hsame j hj).symm]
  exact hof.abs_slack_le hgap hsmall
    ((hof.solves_iff hinitial z).1 ((hequivalent.solves_iff z).1 hz)) c hc

/-- Phase two starts from a tableau that stands for the standard form. -/
theorem HasPhase.exists_standsFor (h : M.HasPhase settings 2 phase) (hM : M.Scoped)
    (ho : M.objective = some o) (hsome : M.constraints.isEmpty = false)
    (hnonneg : 0 ≤ settings.tolerance) (hhalf : settings.tolerance < 1 / 2) :
    ∃ T, phase = Phase.run settings T ∧ M.StandsFor settings T := by
  have hstandard := StandardForm.isStandard_ofModel hM
  cases h with
  | only hskip hinitial =>
    have hfirst := firstOf_of_eq_ok hstandard.toScoped (StandardForm.objective_ofModel ho) hinitial
    refine ⟨_, rfl, hfirst.tolerance, hfirst.columns, fun hy hgap _ c hc => ?_,
      fun _ => hfirst.rhs_nonneg hstandard⟩
    have hholds := (hfirst.solves_iff hstandard _).1 hy c hc
    rw [← c.holdsWithin_zero_iff, Constraint.holdsWithin_of_equal (hstandard.relation_eq c hc)]
      at hholds
    exact hholds.trans hgap
  | two hneeds hone =>
    obtain ⟨program, U, S, hof, hprogram, hinitial, hU, hcleared, htolerance, hle, hrestored,
      hrepriced⟩ := exists_restoredFrom_of_phaseOne hM ho hsome hnonneg hneeds hone
    refine ⟨_, rfl, hrepriced.tolerance.trans (hrestored.tolerance.trans htolerance),
      hrepriced.columns.trans hrestored.columns, fun {y _} hy hgap hmeets => ?_,
      fun hlimited i hi => ?_⟩
    · refine abs_slack_le_of_expunge hM hnonneg hhalf hof hprogram hinitial hU hgap
        (fun p hp => hmeets p (hcleared p hp)) ?_
      rw [← hrestored.solves_repriced_iff hle hrepriced fun j hj _ => padded_of_le y hj]
      refine (Tableau.solves_congr _ fun j hj => ?_).1 hy
      rw [hrepriced.columns, hrestored.columns] at hj
      exact (padded_of_lt y hj).symm
    · rw [hrepriced.rhs hi, hrestored.rhs_of_ne i hi]
      have hfirst := hlimited.of_hasPhase ho hsome (.one hneeds hprogram hinitial)
      exact rhs_nonneg_of_expunge hM hnonneg hhalf hof hprogram hinitial hU hfirst i hi

/-- The last tableau of phase two stands for the standard form. -/
theorem HasPhase.last_standsFor (h : M.HasPhase settings 2 phase) (hM : M.Scoped)
    (ho : M.objective = some o) (hsome : M.constraints.isEmpty = false)
    (hnonneg : 0 ≤ settings.tolerance) (hhalf : settings.tolerance < 1 / 2) :
    M.StandsFor settings phase.last := by
  obtain ⟨T, hrun, hT⟩ := h.exists_standsFor hM ho hsome hnonneg hhalf
  have hlimited := fun hlimited : M.Limited settings => hlimited.of_hasPhase ho hsome h
  have hstart : 0 ≤ T.tolerance := by
    rw [hT.tolerance]
    exact hnonneg
  rw [hrun] at hlimited ⊢
  obtain ⟨hlast, hequivalent⟩ := Phase.equivalent_of_mem_visited settings hstart _
    (Phase.run settings T).last_mem_visited
  exact ⟨hlast.trans hT.tolerance, hequivalent.columns.trans hT.columns,
    fun hy => hT.abs_slack_le ((hequivalent.solves_iff _).1 hy),
    fun h => (hlimited h).rhs_nonneg hstart (hT.rhs_nonneg h)⟩

end Phases

end Model

/-! ## The assignment -/

namespace Tableau

variable {T : Tableau ℚ}

/-- The front of the assignment is that of the basic point, with zero for what is within the
tolerance. -/
theorem take_assignment (hhalf : T.tolerance < 1 / 2) {n : ℕ} (hn : n ≤ T.columns) :
    T.assignment.take n = ((List.range n).map T.basicPoint).map (cutOff T.tolerance) := by
  rw [List.map_map]
  refine Model.eq_of_entry_eq (by simpa [length_assignment] using hn) fun j _ => ?_
  rw [Row.entry_take, Row.entry_map_range, entry_assignment_eq_cutOff hhalf]
  rfl

/-- When the columns that the basis reports are unit vectors and the rows without one are zero, the
basis can be read off. -/
theorem HasUnitBasis.readsBasis (h : T.HasUnitBasis) (hhalf : T.tolerance < 1 / 2)
    (hzero : ∀ i ∈ T.constraintRows, T.basicColumn i = none → ∀ j ≤ T.columns, T.entry i j = 0) :
    T.ReadsBasis := by
  refine ⟨fun i hi => ?_, fun i c hc => h.unitIn hhalf hc⟩
  cases hc : T.basicColumn i with
  | some c => exact Or.inr ⟨c, rfl⟩
  | none =>
    refine Or.inl fun j => ?_
    rcases lt_or_ge i T.matrix.height with hlt | hbelow
    · rcases le_or_gt j T.columns with hle | hgt
      · exact hzero i ((T.mem_constraintRows i).2 ⟨hi, hlt⟩) hc j hle
      · exact T.entry_eq_zero_of_columns_lt i hgt
    · exact T.entry_eq_zero_of_height_le hbelow j

/-- The basic point is not below zero when no right-hand side is. -/
theorem basicPoint_nonneg_of_rhs (hhalf : T.tolerance < 1 / 2) (hrhs : ∀ i ≠ 0, 0 ≤ T.rhs i)
    (j : ℕ) : 0 ≤ T.basicPoint j := by
  by_cases hbasic : ∃ i, T.basicColumn i = some j
  · obtain ⟨i, hi⟩ := hbasic
    rw [basicPoint_of_basicColumn hi]
    exact hrhs i ((T.mem_constraintRows i).1 (mem_constraintRows_of_basicColumn hhalf hi)).1
  · rw [basicPoint_of_forall_ne fun i hi => hbasic ⟨i, hi⟩]

end Tableau

/-- The values of the model's variables at the basic point of the last tableau. -/
def Solution.basicValues (s : Solution ℚ) (M : Model ℚ) : List ℚ :=
  (List.range M.vars.length).map s.finalTableau.basicPoint

namespace Constraint

/-- At a vector the slack is the bound less the value of the expression. -/
theorem slack_entry (c : Constraint ℚ) {values : List ℚ} {n : ℕ} (h : values.length = n) :
    c.slack n (Row.entry values) = c.bound - c.expression.valueAt values := by
  rw [← h]
  rfl

end Constraint

namespace Model

variable {M : Model ℚ} {settings : Settings ℚ}

/-- Values satisfy a model within the tolerance when none is below zero by more, and they are close
to values at which it is feasible within a gap and an excess: the left sides differ by no more than
the rest of the tolerance. -/
theorem isSatisfiedBy_of_feasibleWithin (hM : M.Scoped)
    (hmax : M.vars.length ≤ Expression.maxDenseLength) {gap excess tolerance : ℚ}
    (hexcess : 0 ≤ excess) {u v : List ℚ} (hu : u.length = M.vars.length)
    (hv : v.length = M.vars.length) (hfeasible : M.FeasibleWithin gap excess (Row.entry u))
    (hbelow : ∀ x ∈ v, -tolerance ≤ x)
    (hclose : ∀ c ∈ M.constraints,
      |c.expression.valueAt u - c.expression.valueAt v| ≤ tolerance - (gap + excess)) :
    M.isSatisfiedBy v tolerance = .ok true := by
  rw [isSatisfiedBy_eq_ok_true_iff]
  refine ⟨hv, fun j hj => ?_, fun c hc => ⟨⟨hmax, hM.constraints c hc⟩,
    (hfeasible.2 c hc).satisfiedWithin hexcess ?_⟩⟩
  · rw [← hv] at hj
    rw [Row.entry_of_lt hj]
    exact hbelow _ (List.getElem_mem hj)
  · rw [c.slack_entry hu, c.slack_entry hv, sub_sub_sub_cancel_left, abs_sub_comm]
    exact hclose c hc

/-- Which optimal assignments satisfy their model within the tolerance.

There is a positive margin, and under every tolerance below it all of them do.

In any case the assignment is the basic point of the last tableau, with zero for what is within the
tolerance. Take any solution of this tableau, and let no row that the solve has cleared be missed
there by more than a gap, and no value be below zero by more than an excess. Then it satisfies the
model within the gap and the excess together, and so does the assignment within the tolerance, when
it is not below zero by more and its left sides are as close to those of the solution as the gap and
the excess leave of the tolerance. The basic point is a solution when the basis of the last tableau
can be read off, and it is not below zero when each pivot limits its column. -/
theorem solve_feasible_within (name : String) (calls : List (Call ℚ)) (settings : Settings ℚ) :
    let M := built name calls
    (0 < M.margin settings ∧
      ∀ t, 0 ≤ t → t < M.margin settings → ∀ s,
        (M.solve (settings.withTolerance t)).result = .ok s → s.isOptimal = true →
          ∃ v, s.assignment M = some v ∧ M.isSatisfiedBy v t = .ok true) ∧
    (0 ≤ settings.tolerance → settings.tolerance < 1 / 2 →
      ∀ s, (M.solve settings).result = .ok s → s.isOptimal = true →
        let T := s.finalTableau
        let v := (s.basicValues M).map (Tableau.cutOff settings.tolerance)
        s.assignment M = some v ∧
        (∀ y gap excess, T.Solves y → 0 ≤ gap → M.MeetsCleared settings gap y → 0 ≤ excess →
          (∀ j < T.columns, -excess ≤ y j) →
          let u := (List.range M.vars.length).map y
          M.isSatisfiedBy u (gap + excess) = .ok true ∧
            ((∀ x ∈ v, -settings.tolerance ≤ x) →
              (∀ c ∈ M.constraints, |c.expression.valueAt u - c.expression.valueAt v| ≤
                settings.tolerance - (gap + excess)) →
              M.isSatisfiedBy v settings.tolerance = .ok true)) ∧
        (T.ReadsBasis → T.Solves T.basicPoint) ∧
        (M.Limited settings → ∀ j, 0 ≤ T.basicPoint j)) := by
  intro M
  have hM : M.Scoped := scoped_built name calls
  refine ⟨⟨M.margin_pos settings, fun t hnonneg hlt s hs hoptimal =>
    exists_isSatisfiedBy_of_lt_margin name calls hnonneg hlt hs hoptimal⟩,
    fun hnonneg hhalf s hs hoptimal => ?_⟩
  intro T v
  obtain ⟨o, phase, own, value, ho, hsome, hphase, hfinal, hverdict, hown, hvalue⟩ :=
    exists_phase_of_isOptimal hs hoptimal
  have hstands := hphase.last_standsFor hM ho hsome hnonneg hhalf
  rw [← hfinal] at hstands hverdict
  have hhalf' : T.tolerance < 1 / 2 := by
    rw [hstands.tolerance]
    exact hhalf
  have hwidth : M.vars.length ≤ T.columns := by
    rw [hstands.columns]
    exact (StandardForm.ofModel_extends hM).width_le
  have hmax : M.vars.length ≤ Expression.maxDenseLength := by
    rw [← length_of_project_eq_ok hown]
    exact ((Expression.evaluate_eq_ok_iff _ _ _).1 hvalue).1
  refine ⟨?_, fun y gap excess hy hgap hmeets hexcess hge => ?_,
    fun hbasis => hbasis.solves_basicPoint,
    fun hlimited => Tableau.basicPoint_nonneg_of_rhs hhalf' (hstands.rhs_nonneg hlimited)⟩
  · unfold Solution.assignment
    rw [hverdict]
    dsimp only
    rw [if_pos (by rw [Tableau.length_assignment]; exact hwidth),
      Tableau.take_assignment hhalf' hwidth, hstands.tolerance]
    rfl
  · intro u
    have hu : u.length = M.vars.length := by simp [u]
    have hv : v.length = M.vars.length := by simp [v, Solution.basicValues]
    have hentry : ∀ j < M.vars.length, Row.entry u j = y j := fun j hj => by
      rw [Row.entry_map_range, if_pos hj]
    have hfeasible : M.FeasibleWithin gap excess (Row.entry u) :=
      (M.feasibleWithin_congr hentry).2 (hstands.feasibleWithin hM hy hgap hmeets hge)
    refine ⟨isSatisfiedBy_of_feasibleWithin hM hmax hexcess hu hu hfeasible (fun x hx => ?_)
      fun c _ => ?_, isSatisfiedBy_of_feasibleWithin hM hmax hexcess hu hv hfeasible⟩
    · obtain ⟨j, hj, rfl⟩ := List.mem_map.1 hx
      have hle := hge j (lt_of_lt_of_le (List.mem_range.1 hj) hwidth)
      linarith
    · rw [sub_self, sub_self, abs_zero]

/-- Make `x + y / 10 ^ 10` large, with `x ≤ 2`, `y ≤ 1`, and `x + y ≥ 1`. -/
def narrowCalls : List (Call ℚ) :=
  let x : Variable := ⟨0, "x"⟩
  let y : Variable := ⟨1, "y"⟩
  [.addVariable "x", .addVariable "y",
    .addConstraint ⟨[⟨1, x⟩], 0⟩ .atMost 2,
    .addConstraint ⟨[⟨1, y⟩], 0⟩ .atMost 1,
    .addConstraint ⟨[⟨1, x⟩, ⟨1, y⟩], 0⟩ .atLeast 1,
    .maximize ⟨[⟨1, x⟩, ⟨1 / 10 ^ 10, y⟩], 0⟩]

/-- Make `x` large, with `x ≤ 2 + 1 / 10 ^ 10`, `x ≤ 2`, and `x + y = 3` stated twice, the second
time with `1 / 10 ^ 10` more on the right. -/
def uncertainCalls : List (Call ℚ) :=
  let x : Variable := ⟨0, "x"⟩
  let y : Variable := ⟨1, "y"⟩
  [.addVariable "x", .addVariable "y",
    .addConstraint ⟨[⟨1, x⟩], 0⟩ .atMost (2 + 1 / 10 ^ 10),
    .addConstraint ⟨[⟨1, x⟩], 0⟩ .atMost 2,
    .addConstraint ⟨[⟨1, x⟩, ⟨1, y⟩], 0⟩ .equal 3,
    .addConstraint ⟨[⟨1, x⟩, ⟨1, y⟩], 0⟩ .equal (3 + 1 / 10 ^ 10),
    .maximize ⟨[⟨1, x⟩], 0⟩]

/-- Settings with a billionth for the tolerance. -/
def billionthSettings : Settings ℚ :=
  exactSettings.withTolerance (1 / 10 ^ 9)

/-- The same under Bland's rule. -/
def blandSettings : Settings ℚ :=
  { billionthSettings with rule := .bland }

/-- Under Bland's rule the ratios of the uncertain model are a tie within the tolerance, so the
first row leaves, and the right-hand side of the second is below zero from then on. The last row is
cleared, although its right-hand side is not zero. -/
theorem exists_solve_uncertain : ∃ s,
    ((built "uncertain" uncertainCalls).solve blandSettings).result = .ok s ∧
    s.isOptimal = true ∧ s.finalTableau.ReadsBasis ∧
    (built "uncertain" uncertainCalls).MeetsCleared blandSettings (1 / 10 ^ 10)
      s.finalTableau.basicPoint ∧
    (∀ j < s.finalTableau.columns, -(1 / 10 ^ 10) ≤ s.finalTableau.basicPoint j) ∧
    s.basicValues (built "uncertain" uncertainCalls) = [2 + 1 / 10 ^ 10, 1 - 1 / 10 ^ 10] := by
  have hresult : ((built "uncertain" uncertainCalls).solve blandSettings).result.toOption.any
      (fun s => s.isOptimal && decide (s.finalTableau.tolerance < 1 / 2) &&
        decide s.finalTableau.HasUnitBasis &&
        decide (∀ i ∈ s.finalTableau.constraintRows, s.finalTableau.basicColumn i = none →
          ∀ j ≤ s.finalTableau.columns, s.finalTableau.entry i j = 0) &&
        decide ((built "uncertain" uncertainCalls).MeetsCleared blandSettings (1 / 10 ^ 10)
          s.finalTableau.basicPoint) &&
        decide (∀ j < s.finalTableau.columns, -(1 / 10 ^ 10) ≤ s.finalTableau.basicPoint j) &&
        decide (s.basicValues (built "uncertain" uncertainCalls) =
          [2 + 1 / 10 ^ 10, 1 - 1 / 10 ^ 10])) = true := by
    decide +kernel
  obtain ⟨s, hs, hchecked⟩ := (Option.any_eq_true _ _).1 hresult
  simp only [Bool.and_eq_true, decide_eq_true_eq] at hchecked
  obtain ⟨⟨⟨⟨⟨⟨hoptimal, hsmall⟩, hunit⟩, hzero⟩, hmeets⟩, hexcess⟩, hvalues⟩ := hchecked
  exact ⟨s, eq_ok_of_toOption_eq_some hs, hoptimal, hunit.readsBasis hsmall hzero, hmeets, hexcess,
    hvalues⟩

/-- A result that is checked to be an optimal solution is one. -/
theorem exists_isOptimal_of_any {ε : Type} {result : Except ε (Solution ℚ)}
    (h : result.toOption.any (·.isOptimal) = true) : ∃ s, result = .ok s ∧ s.isOptimal = true := by
  obtain ⟨s, hs, hoptimal⟩ := (Option.any_eq_true _ _).1 h
  exact ⟨s, eq_ok_of_toOption_eq_some hs, hoptimal⟩

/-- A solve of the narrow model with a tolerance below the margin, and one with a tolerance above it
in which each pivot limits its column. The optimal assignment of the uncertain model misses two
constraints by `1 / 10 ^ 10` each, and satisfies it within the tolerance. -/
theorem solve_feasible_within_narrow :
    (∃ s v, 0 ≤ (1 / 10 ^ 11 : ℚ) ∧
      1 / 10 ^ 11 < (built "narrow" narrowCalls).margin billionthSettings ∧
      ((built "narrow" narrowCalls).solve (billionthSettings.withTolerance (1 / 10 ^ 11))).result =
        .ok s ∧
      s.isOptimal = true ∧ s.assignment (built "narrow" narrowCalls) = some v ∧
      (built "narrow" narrowCalls).isSatisfiedBy v (1 / 10 ^ 11) = .ok true) ∧
    (∃ s, (built "narrow" narrowCalls).margin billionthSettings < billionthSettings.tolerance ∧
      0 ≤ billionthSettings.tolerance ∧ billionthSettings.tolerance < 1 / 2 ∧
      ((built "narrow" narrowCalls).solve billionthSettings).result = .ok s ∧
      s.isOptimal = true ∧ (built "narrow" narrowCalls).Limited billionthSettings ∧
      ∀ j, 0 ≤ s.finalTableau.basicPoint j) ∧
    let M := built "uncertain" uncertainCalls
    let u : List ℚ := [2 + 1 / 10 ^ 10, 1 - 1 / 10 ^ 10]
    ∃ s, 0 ≤ blandSettings.tolerance ∧ blandSettings.tolerance < 1 / 2 ∧
      (M.solve blandSettings).result = .ok s ∧ s.isOptimal = true ∧ s.assignment M = some u ∧
      s.finalTableau.ReadsBasis ∧ s.finalTableau.Solves s.finalTableau.basicPoint ∧
      M.MeetsCleared blandSettings (1 / 10 ^ 10) s.finalTableau.basicPoint ∧
      (∀ j < s.finalTableau.columns, -(1 / 10 ^ 10) ≤ s.finalTableau.basicPoint j) ∧
      M.isSatisfiedBy u (1 / 10 ^ 10 + 1 / 10 ^ 10) = .ok true ∧
      M.isSatisfiedBy u blandSettings.tolerance = .ok true := by
  refine ⟨?_, ?_, ?_⟩
  · have hnonneg : 0 ≤ (1 / 10 ^ 11 : ℚ) := by decide +kernel
    have hlt : 1 / 10 ^ 11 < (built "narrow" narrowCalls).margin billionthSettings := by
      decide +kernel
    have hresult : ((built "narrow" narrowCalls).solve
        (billionthSettings.withTolerance (1 / 10 ^ 11))).result.toOption.any (·.isOptimal) =
          true := by
      decide +kernel
    obtain ⟨s, hs, hoptimal⟩ := exists_isOptimal_of_any hresult
    obtain ⟨⟨-, hmargin⟩, -⟩ := solve_feasible_within "narrow" narrowCalls billionthSettings
    obtain ⟨v, hv, hsatisfied⟩ := hmargin _ hnonneg hlt s hs hoptimal
    exact ⟨s, v, hnonneg, hlt, hs, hoptimal, hv, hsatisfied⟩
  · have hlt : (built "narrow" narrowCalls).margin billionthSettings <
        billionthSettings.tolerance := by
      decide +kernel
    have hnonneg : 0 ≤ billionthSettings.tolerance := by decide +kernel
    have hhalf : billionthSettings.tolerance < 1 / 2 := by decide +kernel
    have hlimited : (built "narrow" narrowCalls).Limited billionthSettings := by decide +kernel
    have hresult : ((built "narrow" narrowCalls).solve
        billionthSettings).result.toOption.any (·.isOptimal) = true := by
      decide +kernel
    obtain ⟨s, hs, hoptimal⟩ := exists_isOptimal_of_any hresult
    obtain ⟨-, hwithin⟩ := solve_feasible_within "narrow" narrowCalls billionthSettings
    obtain ⟨-, -, -, hbasic⟩ := hwithin hnonneg hhalf s hs hoptimal
    exact ⟨s, hlt, hnonneg, hhalf, hs, hoptimal, hlimited, hbasic hlimited⟩
  · intro M u
    have hnonneg : 0 ≤ blandSettings.tolerance := by decide +kernel
    have hhalf : blandSettings.tolerance < 1 / 2 := by decide +kernel
    have hgap : (0 : ℚ) ≤ 1 / 10 ^ 10 := by decide +kernel
    obtain ⟨s, hs, hoptimal, hbasis, hmeets, hexcess, hvalues⟩ := exists_solve_uncertain
    obtain ⟨-, hwithin⟩ := solve_feasible_within "uncertain" uncertainCalls blandSettings
    obtain ⟨hassignment, hbounds, hsolves, -⟩ := hwithin hnonneg hhalf s hs hoptimal
    obtain ⟨hcovered, hsatisfied⟩ :=
      hbounds _ _ _ (hsolves hbasis) hgap hmeets hgap hexcess
    -- The assignment is the basic point itself, as none of its values is within the tolerance.
    have hcut : u.map (Tableau.cutOff blandSettings.tolerance) = u := by decide +kernel
    have hsame : (List.range M.vars.length).map s.finalTableau.basicPoint = u := hvalues
    rw [hvalues, hcut] at hassignment hsatisfied
    rw [hsame] at hcovered hsatisfied
    refine ⟨s, hnonneg, hhalf, hs, hoptimal, hassignment, hbasis, hsolves hbasis, hmeets, hexcess,
      hcovered, hsatisfied (by decide +kernel) fun c _ => ?_⟩
    rw [sub_self, abs_zero]
    decide +kernel

/-- Make `x` large, with `x / 10 ^ 10 ≤ 1` and `x ≤ 10 ^ 12`. -/
def shallowCalls : List (Call ℚ) :=
  let x : Variable := ⟨0, "x"⟩
  [.addVariable "x",
    .addConstraint ⟨[⟨1 / 10 ^ 10, x⟩], 0⟩ .atMost 1,
    .addConstraint ⟨[⟨1, x⟩], 0⟩ .atMost (10 ^ 12),
    .maximize ⟨[⟨1, x⟩], 0⟩]

/-- A coefficient below the tolerance: the first constraint is not seen to limit `x`, and the
optimal assignment misses it by 99. -/
theorem solve_misses_constraint_shallow : ∃ s v,
    ((built "shallow" shallowCalls).solve (exactSettings.withTolerance (1 / 10 ^ 9))).result =
      .ok s ∧
    s.isOptimal = true ∧ s.assignment (built "shallow" shallowCalls) = some v ∧
    (built "shallow" shallowCalls).isSatisfiedBy v (1 / 10 ^ 9) = .ok false := by
  have hresult : (match ((built "shallow" shallowCalls).solve
        (exactSettings.withTolerance (1 / 10 ^ 9))).result with
      | .ok s =>
        s.isOptimal && decide (s.assignment (built "shallow" shallowCalls) = some [10 ^ 12])
      | .error _ => false) = true := by
    decide +kernel
  have hmissed :
      (built "shallow" shallowCalls).isSatisfiedBy [10 ^ 12] (1 / 10 ^ 9) = .ok false := by
    decide +kernel
  split at hresult
  · rename_i s hs
    obtain ⟨hoptimal, hassignment⟩ := (Bool.and_eq_true_iff ..).1 hresult
    exact ⟨s, _, hs, hoptimal, of_decide_eq_true hassignment, hmissed⟩
  · exact absurd hresult Bool.false_ne_true

end Model

end LinProg
