import LinProg.Proofs.Artificials
import LinProg.Proofs.Binary64Units
import LinProg.Proofs.Course
import LinProg.Proofs.PhaseRun

/-!
# The basis is not lost to rounding

Each constraint row of a first tableau owns a column: the slack of its constraint
(`exists_owns_of_tableau`), or, once the artificial columns are priced out, the slack or the
artificial variable (`exists_owns_of_phaseOneTableau`). A pivot that a rule chooses keeps that, in
any arithmetic that is exact about zero and one, and so does a whole phase
(`Phase.exists_owns_of_mem_visited`). So there is a basic column for each constraint row in all of
phase one, and in phase two when no phase one comes before it (`solve_keeps_basis`). -/

namespace LinProg

open Scalar (ExactUnits)

variable {α : Type} [Scalar α] [ExactUnits α]

namespace Phase

variable {T U : Tableau α} {rule : PivotRule} {column row : ℕ}

/-- After a step of a phase each constraint row owns a column when each did before it. -/
theorem Chosen.exists_owns (h : Chosen rule T column row U) (htol : 0 ≤ T.tolerance)
    (howns : ∀ i ∈ T.constraintRows, ∃ c, T.Owns i c) :
    ∀ i ∈ U.constraintRows, ∃ c, U.Owns i c :=
  (Tableau.pivoted_of_eq_ok h.pivot).exists_owns htol
    ((T.mem_constraintRows row).1 (Tableau.mem_constraintRows_of_leavingRow h.leaving)).1
    (Tableau.lt_columns_of_enteringColumn h.entering) howns

/-- When each constraint row owns a column in the first tableau of a phase, each does in all of
them. -/
theorem exists_owns_of_mem_visited (settings : Settings α) (htol : 0 ≤ T.tolerance)
    (howns : ∀ i ∈ T.constraintRows, ∃ c, T.Owns i c) :
    ∀ U ∈ (run settings T).visited, U.tolerance = T.tolerance ∧
      ∀ i ∈ U.constraintRows, ∃ c, U.Owns i c := by
  refine forall_mem_visited_of_chosen (fun hchosen hV => ?_) settings ⟨rfl, howns⟩
  obtain ⟨htolerance, hV⟩ := hV
  exact ⟨(Tableau.pivoted_of_eq_ok hchosen.pivot).tolerance.trans htolerance,
    hchosen.exists_owns (by rw [htolerance]; exact htol) hV⟩

end Phase

/-! ## The first tableaux -/

section First

variable {M : Model α} {o : Objective α} {form : StandardForm α} {program : PhaseOneProgram α}
  {T : Tableau α} {tolerance : α}

/-- With a slack for each constraint each constraint row of the first tableau owns a column. -/
theorem exists_owns_of_tableau (hM : M.Scoped) (ho : M.objective = some o)
    (hskip : (StandardForm.ofModel M).needsPhaseOne = false)
    (h : (StandardForm.ofModel M).model.tableau tolerance = .ok T) :
    T.tolerance = tolerance ∧ ∀ i ∈ T.constraintRows, ∃ c, T.Owns i c := by
  have hfirst := Model.firstOf_of_eq_ok (StandardForm.scoped_ofModel hM)
    (StandardForm.objective_ofModel ho) h
  refine ⟨hfirst.tolerance, fun i hi => ?_⟩
  obtain ⟨hne, hlt⟩ := (T.mem_constraintRows i).1 hi
  rw [hfirst.height] at hlt
  have hk : i - 1 < (StandardForm.ofModel M).slacks.length := by
    rw [StandardForm.length_slacks_ofModel]
    omega
  obtain ⟨n, hn⟩ := StandardForm.exists_slack_of_needsPhaseOne_eq_false hskip hk
  obtain ⟨hunit, hle⟩ := StandardForm.unitColumn_of_slack hM hn
  have hentry := hfirst.entry_unitColumn hunit (by omega)
  refine ⟨n, by rw [hfirst.columns]; exact hunit.lt_width, hne, ?_, fun k hk => ?_⟩
  · rw [hentry i hne, if_pos (by omega)]
  · by_cases hk0 : k = 0
    · -- The objective does not mention the slack.
      rw [hk0, hfirst.entry_zero n hunit.lt_width,
        (StandardForm.within_asMaximization hM ho).coefficientAt_of_le hle]
      exact ExactUnits.isZero_neg ExactUnits.isZero_zero
    · rw [hentry k hk0, if_neg (by omega)]
      exact ExactUnits.isZero_zero

/-- Each constraint row of the first tableau of phase one owns a column. -/
theorem ProgramShape.exists_owns (h : ProgramShape form program)
    (hlength : form.slacks.length = form.model.constraints.length)
    (hslack : ∀ k n : ℕ, form.slacks[k]? = some (some n) → form.model.UnitColumn k n)
    (hT : program.tableau tolerance = .ok T) :
    T.tolerance = tolerance ∧ ∀ i ∈ T.constraintRows, ∃ c, T.Owns i c := by
  obtain ⟨total, ho, htotal⟩ := h.exists_total
  rw [program.tableau_eq_bind] at hT
  obtain ⟨first, hfirst, hT⟩ := (bind_eq_ok_iff _ _ _).1 hT
  have hof := Model.firstOf_of_eq_ok h.isScoped ho hfirst
  have hpriced := Tableau.repriced_of_eq_ok (fun p hp => (h.place_bounds hof hp).1) hT
  refine ⟨hpriced.tolerance.trans hof.tolerance, fun i hi => ?_⟩
  rw [Tableau.mem_constraintRows, hpriced.height, ← Tableau.mem_constraintRows] at hi
  obtain ⟨c, hc⟩ := h.exists_becomesBasic hlength hslack hof htotal hi
  exact ⟨c, hpriced.owns hc⟩

/-- Each constraint row of the first tableau of phase one of a model owns a column. -/
theorem exists_owns_of_phaseOneTableau (hM : M.Scoped)
    (hprogram : (StandardForm.ofModel M).phaseOneProgram = .ok program)
    (hT : program.tableau tolerance = .ok T) :
    T.tolerance = tolerance ∧ ∀ i ∈ T.constraintRows, ∃ c, T.Owns i c :=
  (programShape_of_eq_ok (StandardForm.scoped_ofModel hM) (StandardForm.length_slacks_ofModel M)
    hprogram).exists_owns (StandardForm.length_slacks_ofModel M)
    (fun _ _ hs => (StandardForm.unitColumn_of_slack hM hs).1) hT

end First

/-! ## The solve -/

namespace Model

/-- Each constraint row of a tableau that a solve goes through owns a column, in phase one and in
phase two when there is no phase one. -/
theorem HasPhase.exists_owns {M : Model α} {o : Objective α} {settings : Settings α} {number : ℕ}
    {phase : Phase α} (h : M.HasPhase settings number phase) (hM : M.Scoped)
    (ho : M.objective = some o) (htol : 0 ≤ settings.tolerance)
    (hphase : number = 2 → (StandardForm.ofModel M).needsPhaseOne = false) :
    ∀ T ∈ phase.visited, T.tolerance = settings.tolerance ∧
      ∀ i ∈ T.constraintRows, ∃ c, T.Owns i c := by
  have hvisited : ∀ S : Tableau α,
      (S.tolerance = settings.tolerance ∧ ∀ i ∈ S.constraintRows, ∃ c, S.Owns i c) →
      ∀ T ∈ (Phase.run settings S).visited, T.tolerance = settings.tolerance ∧
        ∀ i ∈ T.constraintRows, ∃ c, T.Owns i c := by
    rintro S ⟨htolerance, howns⟩ T hT
    rw [← htolerance] at htol ⊢
    exact Phase.exists_owns_of_mem_visited settings htol howns T hT
  cases h with
  | one _ hprogram hinitial =>
    exact hvisited _ (exists_owns_of_phaseOneTableau hM hprogram hinitial)
  | two hneeds _ =>
    rw [hphase rfl] at hneeds
    exact absurd hneeds Bool.false_ne_true
  | only hskip hinitial =>
    exact hvisited _ (exists_owns_of_tableau hM ho hskip hinitial)

/-- The basis is never lost to rounding in phase one, nor in phase two of a solve without a phase
one. Whatever the arithmetic does to the other entries, each constraint row of each tableau owns a
column that is one there and zero in all other rows, that of the objective included, so the basis
has a column for each constraint row. -/
theorem solve_keeps_basis (name : String) (calls : List (Call α)) {settings : Settings α}
    (htol : 0 ≤ settings.tolerance) (hlt : settings.tolerance < 1) {number : ℕ} {phase : Phase α}
    (h : .phase number phase ∈ ((built name calls).solve settings).events)
    (hphase : number = 2 → (StandardForm.ofModel (built name calls)).needsPhaseOne = false) :
    ∀ T ∈ phase.visited,
      (∀ row ∈ T.constraintRows, ∃ column, T.Owns row column) ∧ none ∉ T.basis := by
  intro T hT
  obtain ⟨⟨o, ho⟩, -, hhas⟩ := hasPhase_of_mem_events h
  obtain ⟨htolerance, howns⟩ := hhas.exists_owns (scoped_built name calls) ho htol hphase T hT
  rw [← htolerance] at htol hlt
  exact ⟨howns, Tableau.none_notMem_basis htol hlt howns⟩

/-- Make `x + 0.1 y` small, with `0.3 x + 0.7 y ≥ 1` and `x + y ≤ 3`: the coefficients are not
binary64 numbers, so each is rounded, and the pivots round again. -/
def decimalCalls : List (Call Float) :=
  let x : Variable := ⟨0, "x"⟩
  let y : Variable := ⟨1, "y"⟩
  [.addVariable "x", .addVariable "y",
    .addConstraint ⟨[⟨0.3, x⟩, ⟨0.7, y⟩], 0⟩ .atLeast 1,
    .addConstraint ⟨[⟨1, x⟩, ⟨1, y⟩], 0⟩ .atMost 3,
    .minimize ⟨[⟨1, x⟩, ⟨0.1, y⟩], 0⟩]

/-- Phase one of the model with decimal coefficients, in double precision, keeps its basis through a
pivot. -/
theorem solve_keeps_basis_decimal : ∃ phase,
    0 ≤ Settings.standard.tolerance ∧ Settings.standard.tolerance < 1 ∧
    .phase 1 phase ∈ ((built "decimal" decimalCalls).solve Settings.standard).events ∧
    phase.steps ≠ [] ∧
    ∀ T ∈ phase.visited,
      (∀ row ∈ T.constraintRows, ∃ column, T.Owns row column) ∧ none ∉ T.basis := by
  have hphase : (1, false) ∈
      (((built "decimal" decimalCalls).solve Settings.standard).events.filterMap
        Event.phase?).map fun p => (p.1, p.2.steps.isEmpty) := by
    decide +kernel
  have htol : 0 ≤ Settings.standard.tolerance := by decide +kernel
  have hlt : Settings.standard.tolerance < 1 := by decide +kernel
  obtain ⟨⟨number, phase⟩, hphase, hpivots⟩ := List.mem_map.1 hphase
  obtain ⟨rfl, hsteps⟩ := Prod.mk.inj hpivots
  have hmem := Event.mem_filterMap_phase?_iff.1 hphase
  exact ⟨phase, htol, hlt, hmem, List.isEmpty_eq_false_iff.1 hsteps,
    solve_keeps_basis "decimal" decimalCalls htol hlt hmem (by decide)⟩

end Model

end LinProg
