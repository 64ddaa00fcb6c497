import LinProg.Proofs.Course
import LinProg.Proofs.Rank
import LinProg.Proofs.Verdicts

/-!
# The tableau that phase one hands over

When phase one ends feasible, the restored tableau is the standard form over again, in a canonical
way (`StandardForm.phaseOne_keeps_program`): it has the same solutions, whether or not they have
negative values, and the same objective at each of them, and as many of its rows are left as the
constraints have rank. `exists_handedOver_of_phaseOne` says which tableaux lead up to it. -/

namespace LinProg

/-! ## The equations of phase one -/

/-- The first tableau of phase one has the tolerance that is given, and the columns and the rows of
the program. -/
theorem ProgramOf.shape {form : StandardForm ℚ} {program : PhaseOneProgram ℚ}
    (h : ProgramOf form program) {tolerance : ℚ} {T : Tableau ℚ}
    (hT : program.tableau tolerance = .ok T) :
    T.tolerance = tolerance ∧ T.columns = program.model.vars.length ∧
      T.matrix.height = form.model.constraints.length + 1 := by
  obtain ⟨_, first, -, hfirst, hpriced⟩ := h.exists_priced_of_eq_ok hT
  refine ⟨hpriced.tolerance.trans hfirst.tolerance, hpriced.columns.trans hfirst.columns, ?_⟩
  rw [hpriced.height, hfirst.height, h.length_constraints]

/-- No right-hand side of the first tableau of phase one is negative. -/
theorem ProgramOf.rhs_nonneg {form : StandardForm ℚ} {program : PhaseOneProgram ℚ}
    (h : ProgramOf form program) {tolerance : ℚ} {T : Tableau ℚ}
    (hT : program.tableau tolerance = .ok T) : ∀ i ≠ 0, 0 ≤ T.rhs i := by
  obtain ⟨_, first, -, hfirst, hpriced⟩ := h.exists_priced_of_eq_ok hT
  intro i hi
  rw [hpriced.rhs hi]
  exact hfirst.rhs_nonneg h.standard i hi

/-- The equations of the first tableau of phase one are the constraints of the program. -/
theorem ProgramOf.solves_iff {form : StandardForm ℚ} {program : PhaseOneProgram ℚ}
    (h : ProgramOf form program) {tolerance : ℚ} {T : Tableau ℚ}
    (hT : program.tableau tolerance = .ok T) (y : ℕ → ℚ) :
    T.Solves y ↔ ∀ d ∈ program.model.constraints, d.Holds program.model.vars.length y := by
  obtain ⟨_, first, -, hfirst, hpriced⟩ := h.exists_priced_of_eq_ok hT
  rw [hpriced.equivalent.solves_iff, hfirst.solves_iff h.standard]

/-- The solutions of a tableau carried over are the points where the constraints of the standard
form hold, when the last tableau of phase one is equivalent to the first. -/
theorem HandedOver.solves_iff_holds {form : StandardForm ℚ} {program : PhaseOneProgram ℚ}
    {o : Objective ℚ} {last U R : Tableau ℚ} (h : HandedOver form.model o last U R)
    (hprogram : ProgramOf form program) (hform : form.model.IsStandard) {tolerance : ℚ}
    {initial : Tableau ℚ} (hinitial : program.tableau tolerance = .ok initial)
    (hequivalent : initial.Equivalent last) (y : ℕ → ℚ) :
    R.Solves y ↔ ∀ c ∈ form.model.constraints, c.Holds form.model.vars.length y := by
  let z := padded form.model.vars.length y
  have hsame : ∀ j < form.model.vars.length, z j = y j := fun j hj => padded_of_lt y hj
  calc R.Solves y ↔ last.Solves z := h.solves_iff y
    _ ↔ initial.Solves z := hequivalent.solves_iff z
    _ ↔ ∀ d ∈ program.model.constraints, d.Holds program.model.vars.length z :=
        hprogram.solves_iff hinitial z
    _ ↔ ∀ c ∈ form.model.constraints, c.Holds form.model.vars.length z :=
        hprogram.holds_iff hform fun j hj _ => padded_of_le y hj
    _ ↔ _ := forall₂_congr fun c _ => c.holds_congr hsame

section Handover

variable {M : Model ℚ} {o : Objective ℚ} {settings : Settings ℚ} {initial restored : Tableau ℚ}
  {iterations : ℕ}

/-- A program and a first tableau of phase one that are computed are the ones that there are. -/
theorem startOf_of_eq_ok (hM : M.Scoped) {program : PhaseOneProgram ℚ}
    (hprogram : (StandardForm.ofModel M).phaseOneProgram = .ok program)
    (hinitial : program.tableau 0 = .ok initial) :
    ProgramOf (StandardForm.ofModel M) program ∧
      StartOf (StandardForm.ofModel M) program initial := by
  have hslacks := StandardForm.length_slacks_ofModel M
  have hof := programOf_of_eq_ok (StandardForm.isStandard_ofModel hM) hslacks hprogram
  obtain ⟨T, hT, hstart⟩ := exists_phaseOneTableau hof hslacks
    (fun k n hk => (StandardForm.unitColumn_of_slack hM hk).1) (hof.le_maxDenseLength hinitial)
  rw [hinitial] at hT
  cases hT
  exact ⟨hof, hstart⟩

/-- A phase one that ends feasible hands over what became of its last tableau, in a canonical form,
and it records the rows that were cleared on the way. -/
theorem exists_handedOver_of_phaseOne (hM : M.Scoped) (ho : M.objective = some o)
    (htol : settings.tolerance = 0)
    (h : ((StandardForm.ofModel M).phaseOne settings).result =
      .ok (.feasible initial restored iterations)) :
    ∃ program U, ProgramOf (StandardForm.ofModel M) program ∧ program.tableau 0 = .ok initial ∧
      StartOf (StandardForm.ofModel M) program initial ∧
      (∀ a ∈ program.artificials, (Phase.run settings initial).last.basicPoint a.column = 0) ∧
      ((Phase.run settings initial).last.expunge 0 program.artificials).result = .ok U ∧
      HandedOver (StandardForm.ofModel M).model o.asMaximization (Phase.run settings initial).last U
        restored ∧ restored.Canonical ∧
      ∀ row, .redundantRow row ∈ ((StandardForm.ofModel M).phaseOne settings).events ↔
        .redundantRow row ∈ ((Phase.run settings initial).last.expunge 0
          program.artificials).events := by
  have hstandard := StandardForm.isStandard_ofModel hM
  obtain ⟨program, levels, U, hprogram, hinitial, hending, hlevels, hnone, hU, hR⟩ :=
    StandardForm.exists_of_phaseOne_eq_feasible h
  have hevents := StandardForm.events_phaseOne hprogram hinitial hending hlevels hnone
  rw [htol] at hinitial hnone hU hR hevents
  obtain ⟨hof, hstart⟩ := startOf_of_eq_ok hM hprogram hinitial
  obtain ⟨hlast, hequivalent⟩ := Phase.last_run_spec settings hstart.canonical
  have hin : ∀ a ∈ program.artificials, a.column < (Phase.run settings initial).last.columns := by
    intro a ha
    obtain ⟨k, -, -, hunit, -⟩ := hof.artificial a ha
    rw [hequivalent.columns, hstart.columns]
    exact hunit.lt_width
  -- No artificial variable is positive, so all of them are zero.
  rw [Tableau.artificialValues_eq_ok hlast.tolerance_eq hin] at hlevels
  cases hlevels
  have hzero := basicPoint_eq_zero_of_forall_not_pos hlast fun a ha hpos =>
    List.any_eq_false.1 hnone _ (List.mem_map.2 ⟨a, ha, rfl⟩) (decide_eq_true hpos)
  obtain ⟨U', R, hU', hR', hhanded, hcanonical⟩ :=
    hstart.exists_handedOver settings hof hstandard.toScoped (StandardForm.objective_ofModel ho)
      (hof.le_maxDenseLength hinitial) hzero
  rw [hU] at hU'
  cases hU'
  rw [hR] at hR'
  cases hR'
  exact ⟨program, U, hof, hinitial, hstart, hzero, hU, hhanded, hcanonical,
    fun row => by simp [hevents]⟩

/-- The solutions of the tableau handed over are the points where the constraints of the standard
form hold, also those with negative values. -/
theorem solves_iff_of_phaseOne (hM : M.Scoped) (ho : M.objective = some o)
    (htol : settings.tolerance = 0)
    (h : ((StandardForm.ofModel M).phaseOne settings).result =
      .ok (.feasible initial restored iterations)) (y : ℕ → ℚ) :
    restored.Solves y ↔ ∀ c ∈ (StandardForm.ofModel M).model.constraints,
      c.Holds (StandardForm.ofModel M).model.vars.length y := by
  obtain ⟨program, U, hprogram, hinitial, hstart, -, -, hhanded, -, -⟩ :=
    exists_handedOver_of_phaseOne hM ho htol h
  have hequivalent := (Phase.last_run_spec settings hstart.canonical).2
  exact hhanded.solves_iff_holds hprogram (StandardForm.isStandard_ofModel hM) hinitial
    hequivalent y

end Handover

/-- The direction of the objective of a standard form is to make it large. -/
theorem Objective.direction_asMaximization {α : Type} [Scalar α] (o : Objective α) :
    o.asMaximization.direction = .maximize := by
  unfold asMaximization
  split
  · assumption
  · rename_i hdirection
    show o.direction.inverted = .maximize
    rw [hdirection]
    rfl

/-- The restored tableau is that of the standard form: its solutions are the vectors that satisfy
the equalities, its objective row gives the objective at each of them, it is canonical, and as many
of its rows are not zero as the constraints have rank. -/
theorem StandardForm.phaseOne_keeps_program (name : String) (calls : List (Model.Call ℚ))
    {settings : Settings ℚ} (htol : settings.tolerance = 0)
    (hobjective : (Model.built name calls : Model ℚ).objective.isSome = true)
    {initial restored : Tableau ℚ} {iterations : ℕ}
    (h : ((StandardForm.ofModel (Model.built name calls)).phaseOne settings).result =
      .ok (.feasible initial restored iterations)) :
    let A := (StandardForm.ofModel (Model.built name calls)).model
    restored.columns = A.vars.length ∧ (∀ c ∈ A.constraints, c.relation = .equal) ∧
      (∀ x : List ℚ, x.length = A.vars.length →
        (restored.Solves (Row.entry x) ↔ ∀ c ∈ A.constraints, c.isSatisfied x 0 = .ok true)) ∧
      (∃ o, A.objective = some o ∧ o.direction = .maximize ∧
        ∀ x : List ℚ, x.length = A.vars.length → restored.Solves (Row.entry x) →
          restored.rowValue 0 (Row.entry x) - restored.rhs 0 =
            -o.expression.linear A.vars.length (Row.entry x)) ∧
      (∀ i ∈ restored.constraintRows, 0 ≤ restored.rhs i) ∧
      (∀ i ∈ restored.constraintRows,
        (∀ j, restored.entry i j = 0) ∨ ∃ c, restored.BasicIn i c) ∧
      restored.nonzeroRows.length = A.coefficientMatrix.rank := by
  intro A
  obtain ⟨o, ho⟩ := Option.isSome_iff_exists.1 hobjective
  have hM : (Model.built name calls : Model ℚ).Scoped := Model.scoped_built name calls
  have hstandard : A.IsStandard := StandardForm.isStandard_ofModel hM
  obtain ⟨program, U, hprogram, hinitial, -, -, -, hhanded, hcanonical, -⟩ :=
    exists_handedOver_of_phaseOne hM ho htol h
  have hsolves : ∀ y, restored.Solves y ↔ ∀ c ∈ A.constraints, c.Holds A.vars.length y :=
    solves_iff_of_phaseOne hM ho htol h
  have hmax : A.vars.length ≤ Expression.maxDenseLength :=
    hprogram.width_le.trans (hprogram.le_maxDenseLength hinitial)
  refine ⟨hhanded.columns, hstandard.relation_eq, fun x hx => ?_,
    ⟨o.asMaximization, StandardForm.objective_ofModel ho, o.direction_asMaximization,
      fun x _ hy => ?_⟩, fun i hi => ?_, fun i hi => ?_, ?_⟩
  · rw [hsolves]
    refine forall₂_congr fun c hc => ?_
    rw [Constraint.isSatisfied_zero_iff, hx]
    exact (and_iff_right ⟨hmax, hstandard.constraints c hc⟩).symm
  · rw [← hhanded.objectiveAt_eq hy]
    unfold Tableau.objectiveAt
    ring
  · exact hcanonical.rhs_nonneg i ((restored.mem_constraintRows i).1 hi).1
  · exact hcanonical.zero_or_basic i ((restored.mem_constraintRows i).1 hi).1
  · rw [← hcanonical.rank_coefficientMatrix]
    exact rank_eq_of_solves_iff hstandard hhanded.columns hcanonical.solves_basicPoint hsolves

/-- Make `x` large, with `x + y = 2` stated twice, the second time doubled. -/
def Model.repeatedCalls : List (Model.Call ℚ) :=
  let x : Variable := ⟨0, "x"⟩
  let y : Variable := ⟨1, "y"⟩
  [.addVariable "x", .addVariable "y",
    .addConstraint ⟨[⟨1, x⟩, ⟨1, y⟩], 0⟩ .equal 2,
    .addConstraint ⟨[⟨2, x⟩, ⟨2, y⟩], 0⟩ .equal 4,
    .maximize ⟨[⟨1, x⟩], 0⟩]

/-- Phase one of the model with a repeated constraint ends feasible. -/
theorem Model.exists_phaseOne_repeated : ∃ initial restored iterations,
    ((StandardForm.ofModel (built "repeated" repeatedCalls)).phaseOne exactSettings).result =
      .ok (.feasible initial restored iterations) := by
  have hresult : (match ((StandardForm.ofModel (built "repeated" repeatedCalls)).phaseOne
        exactSettings).result with
      | .ok (.feasible _ _ _) => true
      | _ => false) = true := by
    decide +kernel
  split at hresult
  · rename_i initial restored iterations hone
    exact ⟨initial, restored, iterations, hone⟩
  · exact absurd hresult Bool.false_ne_true

/-- Phase one of the model with a repeated constraint ends feasible, and keeps the program. -/
theorem StandardForm.phaseOne_keeps_program_repeated : ∃ initial restored iterations,
    Model.exactSettings.tolerance = 0 ∧
    (Model.built "repeated" Model.repeatedCalls : Model ℚ).objective.isSome = true ∧
    ((StandardForm.ofModel (Model.built "repeated" Model.repeatedCalls)).phaseOne
      Model.exactSettings).result = .ok (.feasible initial restored iterations) ∧
    let A := (StandardForm.ofModel (Model.built "repeated" Model.repeatedCalls)).model
    restored.columns = A.vars.length ∧ (∀ c ∈ A.constraints, c.relation = .equal) ∧
      (∀ x : List ℚ, x.length = A.vars.length →
        (restored.Solves (Row.entry x) ↔ ∀ c ∈ A.constraints, c.isSatisfied x 0 = .ok true)) ∧
      (∃ o, A.objective = some o ∧ o.direction = .maximize ∧
        ∀ x : List ℚ, x.length = A.vars.length → restored.Solves (Row.entry x) →
          restored.rowValue 0 (Row.entry x) - restored.rhs 0 =
            -o.expression.linear A.vars.length (Row.entry x)) ∧
      (∀ i ∈ restored.constraintRows, 0 ≤ restored.rhs i) ∧
      (∀ i ∈ restored.constraintRows,
        (∀ j, restored.entry i j = 0) ∨ ∃ c, restored.BasicIn i c) ∧
      restored.nonzeroRows.length = A.coefficientMatrix.rank := by
  have hobjective : (Model.built "repeated" Model.repeatedCalls : Model ℚ).objective.isSome =
      true := by decide +kernel
  obtain ⟨initial, restored, iterations, hone⟩ := Model.exists_phaseOne_repeated
  exact ⟨initial, restored, iterations, rfl, hobjective, hone,
    StandardForm.phaseOne_keeps_program "repeated" Model.repeatedCalls rfl hobjective hone⟩

end LinProg
