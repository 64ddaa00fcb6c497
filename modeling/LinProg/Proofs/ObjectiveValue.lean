import LinProg.Proofs.Correspondence
import LinProg.Proofs.Visited

/-!
# The objective value of a tableau

A solve computes its objective in two ways: the corner of each tableau follows the row operations,
and the solution evaluates the caller's expression at the values that it found. Without tolerance
the two agree all along (`Model.solve_objectiveValue_agrees`). A canonical tableau shows in its
corner the objective at its basic point, the steps of a phase keep the objective at every solution,
and the assignment is the basic point. So the corner is the objective that the phase started with,
taken at the assignment (`Phase.objectiveValue_of_mem_visited`): the negated total of the artificial
variables in phase one, and the objective of the standard form in phase two. -/

namespace LinProg

/-- The end of a vector, by its entries. -/
theorem Row.drop_eq_map_entry {α : Type} [Scalar α] (v : List α) (n : ℕ) :
    v.drop n = (List.range' n (v.length - n)).map (Row.entry v) := by
  refine List.ext_getElem (by simp) fun k hk _ => ?_
  rw [List.length_drop] at hk
  simp [Row.entry_of_lt (show n + k < v.length by omega)]

namespace Tableau

variable {T : Tableau ℚ}

/-- The value of an expression at the assignment is that at the basic point. -/
theorem evaluate_assignment (htol : T.tolerance = 0) {e : Expression ℚ}
    (hmax : T.columns ≤ Expression.maxDenseLength) (hwithin : e.Within T.columns) :
    e.evaluate T.assignment = .ok (e.linear T.columns T.basicPoint + e.constant) := by
  rw [Expression.evaluate_eq_ok_iff, length_assignment,
    funext (entry_assignment htol)]
  exact ⟨hmax, hwithin, rfl⟩

/-- The values of artificial variables in the last columns are the end of the assignment. -/
theorem artificialValues_eq_drop (htol : T.tolerance = 0) {artificials : List Artificial} {n : ℕ}
    (h : artificials.map (·.column) = List.range' n (T.columns - n)) :
    T.artificialValues artificials = .ok (T.assignment.drop n) := by
  have hin : ∀ a ∈ artificials, a.column < T.columns := by
    intro a ha
    have hmem : a.column ∈ artificials.map (·.column) := List.mem_map.2 ⟨a, ha, rfl⟩
    rw [h, List.mem_range'_1] at hmem
    omega
  have hvalues : artificials.map (fun a => T.basicPoint a.column) =
      (artificials.map (·.column)).map T.basicPoint := by
    rw [List.map_map]
    rfl
  rw [artificialValues_eq_ok htol hin, Row.drop_eq_map_entry, funext (entry_assignment htol),
    length_assignment, hvalues, h]

end Tableau

/-! ## A phase -/

/-- In each tableau of a phase from a canonical one the objective value is the objective of the
first tableau, taken at the basic point. -/
theorem Phase.objectiveValue_of_mem_visited (settings : Settings ℚ) {T U : Tableau ℚ}
    (hT : T.Canonical) (hU : U ∈ (run settings T).visited) :
    U.tolerance = 0 ∧ U.columns = T.columns ∧ T.Solves U.basicPoint ∧
      U.objectiveValue = T.objectiveAt U.basicPoint := by
  have hcanonical := (canonical_of_mem_visited settings hT U hU).1
  have hequivalent := (equivalent_of_mem_visited settings hT.tolerance_eq.ge U hU).2
  have hsolves := (hequivalent.solves_iff _).1 hcanonical.solves_basicPoint
  refine ⟨hcanonical.tolerance_eq, hequivalent.columns, hsolves, ?_⟩
  rw [← hcanonical.objectiveAt_basicPoint, hequivalent.objectiveAt_eq hsolves]

/-- In each tableau of phase one the objective value is the negated total of the artificial
variables, which are those past the standard form. -/
theorem StartOf.objectiveValue_of_mem_visited {form : StandardForm ℚ}
    {program : PhaseOneProgram ℚ} {T U : Tableau ℚ} {settings : Settings ℚ}
    (h : StartOf form program T) (hprogram : ProgramOf form program)
    (hU : U ∈ (Phase.run settings T).visited) :
    U.artificialValues program.artificials = .ok (U.assignment.drop form.model.vars.length) ∧
      U.objectiveValue = -Scalar.sum (U.assignment.drop form.model.vars.length) := by
  obtain ⟨htol, hcolumns, hsolves, hvalue⟩ :=
    Phase.objectiveValue_of_mem_visited settings h.canonical hU
  rw [h.columns] at hcolumns
  refine ⟨Tableau.artificialValues_eq_drop htol (by rw [hcolumns]; exact hprogram.map_column), ?_⟩
  rw [hvalue, h.objectiveAt_eq _ hsolves, Scalar.sum_exact, Row.drop_eq_map_entry,
    Tableau.length_assignment, hcolumns,
    funext (Tableau.entry_assignment htol)]
  rfl

/-- The value of an objective, given the linear part of the one to make large in its place: the
constant comes back, and the sign that the direction asks for. -/
def Objective.fromLinear (o : Objective ℚ) (linear : ℚ) : ℚ :=
  match o.direction with
  | .maximize => o.expression.constant + linear
  | .minimize => o.expression.constant - linear

namespace Model

variable {M : Model ℚ} {o : Objective ℚ} {settings : Settings ℚ} {phase : Phase ℚ}

/-- Phase one starts from the first tableau of its program. -/
theorem HasPhase.exists_startOf (hM : M.Scoped) (htol : settings.tolerance = 0)
    (h : M.HasPhase settings 1 phase) :
    ∃ program T, (StandardForm.ofModel M).phaseOneProgram = .ok program ∧
      ProgramOf (StandardForm.ofModel M) program ∧ StartOf (StandardForm.ofModel M) program T ∧
      phase = Phase.run settings T := by
  cases h with
  | @one program initial hneeds hprogram hinitial =>
    rw [htol] at hinitial
    obtain ⟨hof, hstart⟩ := startOf_of_eq_ok hM hprogram hinitial
    exact ⟨program, initial, hprogram, hof, hstart, rfl⟩

/-- Phase two starts from a canonical tableau of the standard form that has its objective. -/
theorem HasPhase.exists_objectiveAt (hM : M.Scoped) (ho : M.objective = some o)
    (htol : settings.tolerance = 0) (h : M.HasPhase settings 2 phase) :
    ∃ T : Tableau ℚ, phase = Phase.run settings T ∧ T.Canonical ∧
      T.columns = (StandardForm.ofModel M).model.vars.length ∧
      (StandardForm.ofModel M).model.vars.length ≤ Expression.maxDenseLength ∧
      ∀ y, T.Solves y → T.objectiveAt y =
        o.asMaximization.expression.linear (StandardForm.ofModel M).model.vars.length y := by
  have hobjective := StandardForm.objective_ofModel ho
  cases h with
  | only hskip hinitial =>
    rw [htol] at hinitial
    have hfirst := Model.firstOf_of_eq_ok (StandardForm.isStandard_ofModel hM).toScoped hobjective
      hinitial
    exact ⟨_, rfl, (startsFrom_of_tableau hM ho hskip hinitial).canonical, hfirst.columns,
      le_maxDenseLength_of_tableau_eq_ok hobjective hinitial, fun y _ => hfirst.objectiveAt_eq y⟩
  | two hneeds hone =>
    obtain ⟨program, U, hprogram, hinitial, -, -, -, hhanded, hcanonical, -⟩ :=
      exists_handedOver_of_phaseOne hM ho htol hone
    exact ⟨_, rfl, hcanonical, hhanded.columns,
      hprogram.width_le.trans (hprogram.le_maxDenseLength hinitial),
      fun y hy => hhanded.objectiveAt_eq hy⟩

/-- In each tableau of phase two the objective value is the linear part of the objective of the
standard form at the assignment. -/
theorem HasPhase.objectiveValue_of_mem_visited (hM : M.Scoped) (ho : M.objective = some o)
    (htol : settings.tolerance = 0) (h : M.HasPhase settings 2 phase) {U : Tableau ℚ}
    (hU : U ∈ phase.visited) :
    U.objectiveValue = o.asMaximization.expression.linear M.vars.length U.basicPoint ∧
      o.asMaximization.expression.dropConstant.evaluate U.assignment = .ok U.objectiveValue := by
  obtain ⟨T, rfl, hT, hwidth, hmax, hobjective⟩ := h.exists_objectiveAt hM ho htol
  obtain ⟨htol', hcolumns, hsolves, hvalue⟩ := Phase.objectiveValue_of_mem_visited settings hT hU
  have hown := StandardForm.within_asMaximization hM ho
  have hle := (StandardForm.ofModel_extends hM).width_le
  rw [hwidth] at hcolumns
  have hlinear : U.objectiveValue =
      o.asMaximization.expression.linear (StandardForm.ofModel M).model.vars.length U.basicPoint :=
    hvalue.trans (hobjective _ hsolves)
  refine ⟨hlinear.trans (hown.linear_eq hle _), ?_⟩
  rw [Tableau.evaluate_assignment htol' (by rw [hcolumns]; exact hmax)
    (by rw [hcolumns]; exact hown.mono hle), hcolumns, hlinear]
  exact congrArg Except.ok (add_zero _)

/-- The value of an objective, from the linear part of the one to make large. -/
theorem linear_add_constant (o : Objective ℚ) (width : ℕ) (x : ℕ → ℚ) :
    o.expression.linear width x + o.expression.constant =
      o.fromLinear (o.asMaximization.expression.linear width x) := by
  unfold Objective.fromLinear Objective.asMaximization
  cases o.direction with
  | maximize => exact add_comm _ _
  | minimize =>
    show _ = o.expression.constant - o.expression.negate.linear width x
    rw [Expression.linear_negate, sub_neg_eq_add, add_comm]

/-- The objective value of an optimal solution is the constant of the objective and the objective
value of the last tableau, with the sign that the direction asks for. -/
theorem objectiveValue_of_isOptimal (hM : M.Scoped) (htol : settings.tolerance = 0)
    {s : Solution ℚ} (h : (M.solve settings).result = .ok s) (hoptimal : s.isOptimal = true) :
    ∃ o, M.objective = some o ∧
      s.objectiveValue = some (o.fromLinear s.finalTableau.objectiveValue) := by
  obtain ⟨o, phase, own, value, ho, -, hphase, hfinal, hverdict, hproject, hevaluate⟩ :=
    exists_phase_of_isOptimal h hoptimal
  have hlast := (hphase.objectiveValue_of_mem_visited hM ho htol phase.last_mem_visited).1
  obtain ⟨T, rfl, hT, -, -, -⟩ := hphase.exists_objectiveAt hM ho htol
  have htol' := (Phase.objectiveValue_of_mem_visited settings hT
    (Phase.run settings T).last_mem_visited).1
  -- The values of the caller's variables are the front of the basic point.
  unfold project at hproject
  split at hproject
  · rename_i hlength
    cases hproject
    obtain ⟨-, -, hvalue⟩ := (Expression.evaluate_eq_ok_iff _ _ _).1 hevaluate
    rw [List.length_take, min_eq_left hlength] at hvalue
    have hfront : ∀ j < M.vars.length, Row.entry ((Phase.run settings T).last.assignment.take
        M.vars.length) j = (Phase.run settings T).last.basicPoint j := by
      intro j hj
      rw [Row.entry_take, if_pos hj, Tableau.entry_assignment htol']
    refine ⟨o, ho, ?_⟩
    unfold Solution.objectiveValue
    rw [hverdict, hfinal, hlast, ← linear_add_constant, ← Expression.linear_congr _ hfront, hvalue]
  · exact absurd hproject nofun

/-- The objective that the tableaux carry along is the one that is reported. In each tableau of
phase one the objective value is the negated total of the artificial variables, which are those past
the standard form; in each tableau of phase two it is the linear part of the objective of the
standard form at the assignment; and the objective value of an optimal solution is the constant of
the caller's objective plus the objective value of the last tableau, or minus it for a caller who
minimizes. -/
theorem solve_objectiveValue_agrees (name : String) (calls : List (Call ℚ))
    {settings : Settings ℚ} (htol : settings.tolerance = 0) :
    let M : Model ℚ := built name calls
    let form := StandardForm.ofModel M
    (∀ phase, .phase 1 phase ∈ (M.solve settings).events →
      ∃ program, form.phaseOneProgram = .ok program ∧ ∀ T ∈ phase.visited,
        T.artificialValues program.artificials =
          .ok (T.assignment.drop form.model.vars.length) ∧
        T.objectiveValue = -Scalar.sum (T.assignment.drop form.model.vars.length)) ∧
    (∀ phase, .phase 2 phase ∈ (M.solve settings).events →
      ∃ o, form.model.objective = some o ∧ o.direction = .maximize ∧ ∀ T ∈ phase.visited,
        o.expression.dropConstant.evaluate T.assignment = .ok T.objectiveValue) ∧
    ∀ s, (M.solve settings).result = .ok s → s.isOptimal = true →
      ∃ o, M.objective = some o ∧
        s.objectiveValue = some (o.fromLinear s.finalTableau.objectiveValue) := by
  intro M form
  have hM : M.Scoped := scoped_built name calls
  refine ⟨fun phase h => ?_, fun phase h => ?_, fun s h hoptimal =>
    objectiveValue_of_isOptimal hM htol h hoptimal⟩
  · obtain ⟨-, -, hphase⟩ := hasPhase_of_mem_events h
    obtain ⟨program, T, hprogram, hof, hstart, rfl⟩ := hphase.exists_startOf hM htol
    exact ⟨program, hprogram, fun U hU => hstart.objectiveValue_of_mem_visited hof hU⟩
  · obtain ⟨⟨o, ho⟩, -, hphase⟩ := hasPhase_of_mem_events h
    exact ⟨o.asMaximization, StandardForm.objective_ofModel ho, o.direction_asMaximization,
      fun U hU => (hphase.objectiveValue_of_mem_visited hM ho htol hU).2⟩

/-- Make `3 x + 2 y + 7` small, with `x + y ≥ 2`, `x + 3 y ≤ 9`, and `y ≤ 1`. -/
def thriftyCalls : List (Call ℚ) :=
  let x : Variable := ⟨0, "x"⟩
  let y : Variable := ⟨1, "y"⟩
  [.addVariable "x", .addVariable "y",
    .addConstraint ⟨[⟨1, x⟩, ⟨1, y⟩], 0⟩ .atLeast 2,
    .addConstraint ⟨[⟨1, x⟩, ⟨3, y⟩], 0⟩ .atMost 9,
    .addConstraint ⟨[⟨1, y⟩], 0⟩ .atMost 1,
    .minimize ⟨[⟨3, x⟩, ⟨2, y⟩], 7⟩]

/-- The thrifty model goes through both phases and has an optimal solution, whose objective value is
twelve; its last tableau has minus five. -/
theorem solve_objectiveValue_agrees_thrifty :
    let M : Model ℚ := built "thrifty" thriftyCalls
    let form := StandardForm.ofModel M
    exactSettings.tolerance = 0 ∧
    (∃ one, .phase 1 one ∈ (M.solve exactSettings).events ∧
      ∃ program, form.phaseOneProgram = .ok program ∧ ∀ T ∈ one.visited,
        T.artificialValues program.artificials =
          .ok (T.assignment.drop form.model.vars.length) ∧
        T.objectiveValue = -Scalar.sum (T.assignment.drop form.model.vars.length)) ∧
    (∃ two, .phase 2 two ∈ (M.solve exactSettings).events ∧
      ∃ o, form.model.objective = some o ∧ o.direction = .maximize ∧ ∀ T ∈ two.visited,
        o.expression.dropConstant.evaluate T.assignment = .ok T.objectiveValue) ∧
    ∃ s, (M.solve exactSettings).result = .ok s ∧ s.isOptimal = true ∧
      s.finalTableau.objectiveValue = -5 ∧ s.objectiveValue = some 12 ∧
      ∃ o, M.objective = some o ∧
        s.objectiveValue = some (o.fromLinear s.finalTableau.objectiveValue) := by
  intro M form
  obtain ⟨hone, htwo, hend⟩ :=
    @solve_objectiveValue_agrees "thrifty" thriftyCalls exactSettings rfl
  have hnumbers : ((M.solve exactSettings).events.filterMap Event.phase?).map (·.1) =
      [1, 2] := by
    decide +kernel
  have hphases : ∀ n ∈ [1, 2], ∃ phase, .phase n phase ∈ (M.solve exactSettings).events := by
    intro n hn
    rw [← hnumbers] at hn
    obtain ⟨⟨number, phase⟩, hmem, rfl⟩ := List.mem_map.1 hn
    exact ⟨phase, Event.mem_filterMap_phase?_iff.1 hmem⟩
  have hresult : (M.solve exactSettings).result.toOption.map
      (fun s => (s.isOptimal, s.finalTableau.objectiveValue, s.objectiveValue)) =
        some (true, -5, some 12) := by
    decide +kernel
  obtain ⟨s, hs, hparts⟩ := Option.map_eq_some_iff.1 hresult
  obtain ⟨hoptimal, hlast, hvalue⟩ := by simpa only [Prod.mk.injEq] using hparts
  have hok := eq_ok_of_toOption_eq_some hs
  obtain ⟨one, h1⟩ := hphases 1 (by simp)
  obtain ⟨two, h2⟩ := hphases 2 (by simp)
  exact ⟨rfl, ⟨one, h1, hone one h1⟩, ⟨two, h2, htwo two h2⟩, s, hok, hoptimal, hlast, hvalue,
    hend s hok hoptimal⟩

end Model

end LinProg
