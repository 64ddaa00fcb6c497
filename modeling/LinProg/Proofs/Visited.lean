import LinProg.Proofs.Restored

/-!
# The tableaux that a solve goes through

Without tolerance every tableau of every phase is canonical, and its basis says which rows have been
cleared (`Model.solve_visits_canonical`): a row that was recorded as redundant is zero in all of
phase two and has no basic column, and every other constraint row has one. From each tableau to the
next the objective never gets smaller, and it gets larger exactly when the right-hand side of the
leaving row was positive.

That no other row becomes zero is kept by each step: a pivot leaves a basic column in every row that
has one (`PivotOf.zeroRow_iff`), so the zero rows of a phase are those of its first tableau
(`Phase.Runs.zeroRow_iff`). The first tableaux have none, and driving out the artificial columns
clears the rows that it records and no other (`Tableau.zeroRow_expunge_iff`). -/

namespace LinProg

namespace Tableau

variable {T U : Tableau ℚ}

/-- A row with a basic column is not zero. -/
theorem BasicIn.not_zeroRow {row column : ℕ} (h : T.BasicIn row column) :
    ¬∀ j, T.entry row j = 0 :=
  fun hzero => not_basicIn_of_forall_entry_eq_zero hzero h

/-- A pivot keeps the zero rows, and makes no other row zero. -/
theorem PivotOf.zeroRow_iff {row column : ℕ} (h : T.PivotOf row column U) (hT : T.Canonical)
    (hrow : row ≠ 0) (hcolumn : column < T.columns) {i : ℕ} (hi : i ≠ 0) :
    (∀ j, U.entry i j = 0) ↔ ∀ j, T.entry i j = 0 := by
  refine ⟨fun hzero => ?_, h.entry_eq_zero⟩
  rcases hT.zero_or_basic i hi with hbefore | ⟨c, hc⟩
  · exact hbefore
  · -- The row had a basic column, and the pivot leaves it one.
    by_cases hir : i = row
    · rw [hir] at hzero
      exact absurd hzero (h.basicIn hrow hcolumn).not_zeroRow
    · exact absurd hzero (h.basicIn_of_ne hir hc).not_zeroRow

/-- In a canonical tableau the basis has no column for a row exactly when the row is zero, and
otherwise one that is basic in it. -/
theorem Canonical.getElem?_basis (h : T.Canonical) {i : ℕ} (hi : i ∈ T.constraintRows) :
    ((∀ j, T.entry i j = 0) → T.basis[i - 1]? = some none) ∧
      ((¬∀ j, T.entry i j = 0) → ∃ c, T.basis[i - 1]? = some (some c) ∧ T.BasicIn i c) := by
  rw [T.getElem?_basis hi]
  cases hc : T.basicColumn i with
  | none =>
    rcases h.zero_or_basicColumn ((T.mem_constraintRows i).1 hi).1 with hzero | ⟨c, hc'⟩
    · exact ⟨fun _ => rfl, fun hnot => absurd hzero hnot⟩
    · rw [hc] at hc'
      exact absurd hc' nofun
  | some c =>
    have hbasic := basicIn_of_basicColumn h.tolerance_eq hc
    exact ⟨fun hzero => absurd hzero hbasic.not_zeroRow, fun _ => ⟨c, rfl, hbasic⟩⟩

end Tableau

/-! ## A phase -/

namespace Phase

variable {settings : Settings ℚ} {remaining streak : ℕ} {rule : PivotRule} {T U : Tableau ℚ}
  {steps : List (PivotStep ℚ)} {ending : PhaseEnd ℚ}

/-- A step makes the objective larger exactly when the right-hand side of its row is positive. -/
theorem Chosen.rhs_zero_lt_iff {column row : ℕ} (h : Chosen rule T column row U)
    (hT : T.Canonical) : T.rhs 0 < U.rhs 0 ↔ 0 < T.rhs row := by
  refine ⟨fun hlt => ?_, fun hpos => h.rhs_zero_lt hT hpos.ne'⟩
  refine (hT.rhs_nonneg row (h.row_spec hT).1).lt_of_ne fun hzero => ?_
  rw [h.rhs_zero hT, ← hzero, zero_div, mul_zero, sub_zero] at hlt
  exact lt_irrefl _ hlt

/-- Each pivot of a phase is chosen in the tableau before it, which is canonical. -/
theorem Runs.chosen_of_mem_zip (h : Runs settings remaining rule streak T steps ending)
    (hT : T.Canonical) : ∀ p ∈ (T :: steps.map (·.tableau)).zip steps,
      p.1.Canonical ∧ ∃ rule, Chosen rule p.1 p.2.column p.2.row p.2.tableau := by
  induction h with
  | optimal | unbounded | exhausted | failed => simp
  | step _ hchosen _ _ _ ih =>
    intro p hp
    rw [List.map_cons, List.zip_cons_cons] at hp
    rcases List.mem_cons.1 hp with rfl | hp
    · exact ⟨hT, _, hchosen⟩
    · exact ih (hchosen.canonical hT) p hp

/-- The zero rows of a phase are those of its first tableau. -/
theorem Runs.zeroRow_iff (h : Runs settings remaining rule streak T steps ending)
    (hT : T.Canonical) {i : ℕ} (hi : i ≠ 0) : ∀ step ∈ steps,
      (∀ j, step.tableau.entry i j = 0) ↔ ∀ j, T.entry i j = 0 := by
  induction h with
  | optimal | unbounded | exhausted | failed => exact nofun
  | step _ hchosen _ _ _ ih =>
    have hstep := (hchosen.pivotOf hT).zeroRow_iff hT (hchosen.row_spec hT).1
      (hchosen.column_spec hT).1 hi
    intro step hmem
    rcases List.mem_cons.1 hmem with rfl | hmem
    · exact hstep
    · exact (ih (hchosen.canonical hT) step hmem).trans hstep

/-- Every tableau of a phase from a canonical one is canonical, with the same zero rows. -/
theorem canonical_of_mem_visited (settings : Settings ℚ) (hT : T.Canonical) :
    ∀ U ∈ (run settings T).visited, U.Canonical ∧ U.matrix.height = T.matrix.height ∧
      ∀ i ≠ 0, (∀ j, U.entry i j = 0) ↔ ∀ j, T.entry i j = 0 := by
  have hruns := runs_pivots settings settings.maxIterations settings.rule 0 T
  intro U hU
  rcases List.mem_cons.1 hU with rfl | hU
  · exact ⟨hT, rfl, fun _ _ => Iff.rfl⟩
  · obtain ⟨step, hstep, rfl⟩ := List.mem_map.1 hU
    obtain ⟨hcanonical, hequivalent⟩ := hruns.forall_mem hT step hstep
    exact ⟨hcanonical, hequivalent.height, fun i hi => hruns.zeroRow_iff hT hi step hstep⟩

/-- From each tableau of a phase to the next the objective never gets smaller, and it gets larger
exactly when the right-hand side of the leaving row was positive. -/
theorem objectiveValue_of_mem_zip (settings : Settings ℚ) (hT : T.Canonical) :
    ∀ p ∈ (run settings T).visited.zip (run settings T).steps,
      p.1.objectiveValue ≤ p.2.tableau.objectiveValue ∧
        (p.1.objectiveValue < p.2.tableau.objectiveValue ↔ 0 < p.1.rhs p.2.row) := by
  intro p hp
  obtain ⟨hcanonical, rule, hchosen⟩ :=
    (runs_pivots settings settings.maxIterations settings.rule 0 T).chosen_of_mem_zip hT p hp
  exact ⟨hchosen.rhs_zero_le hcanonical, hchosen.rhs_zero_lt_iff hcanonical⟩

end Phase

/-! ## The first tableaux -/

section First

variable {M : Model ℚ} {o : Objective ℚ} {form : StandardForm ℚ} {program : PhaseOneProgram ℚ}
  {T : Tableau ℚ}

/-- With a slack for each constraint no row of the first tableau is zero. -/
theorem not_zeroRow_of_tableau (hM : M.Scoped) (ho : M.objective = some o)
    (hskip : (StandardForm.ofModel M).needsPhaseOne = false)
    (h : (StandardForm.ofModel M).model.tableau 0 = .ok T) {i : ℕ} (hi : i ∈ T.constraintRows) :
    ¬∀ j, T.entry i j = 0 := by
  have hfirst := Model.firstOf_of_eq_ok (StandardForm.isStandard_ofModel hM).toScoped
    (StandardForm.objective_ofModel ho) h
  obtain ⟨hne, hlt⟩ := (T.mem_constraintRows i).1 hi
  rw [hfirst.height] at hlt
  have hk : i - 1 < (StandardForm.ofModel M).slacks.length := by
    rw [StandardForm.length_slacks_ofModel]
    omega
  obtain ⟨n, hn⟩ := StandardForm.exists_slack_of_needsPhaseOne_eq_false hskip hk
  have hunit := (StandardForm.unitColumn_of_slack hM hn).1
  intro hzero
  have hone := hfirst.entry_unitColumn hunit (by omega) i hne
  rw [if_pos (by omega), hzero] at hone
  exact zero_ne_one hone

/-- No constraint row of the first tableau of phase one is zero. -/
theorem ProgramOf.not_zeroRow (h : ProgramOf form program)
    (hlength : form.slacks.length = form.model.constraints.length)
    (hslack : ∀ k n : ℕ, form.slacks[k]? = some (some n) → form.model.UnitColumn k n)
    (hT : program.tableau 0 = .ok T) {i : ℕ} (hi : i ∈ T.constraintRows) :
    ¬∀ j, T.entry i j = 0 := by
  obtain ⟨total, first, htotal, hfirst, hpriced⟩ := h.exists_priced_of_eq_ok hT
  have hi' : i ∈ first.constraintRows := by
    rw [first.mem_constraintRows, ← hpriced.equivalent.height]
    exact (T.mem_constraintRows i).1 hi
  obtain ⟨c, hc⟩ := h.exists_becomesBasic hlength hslack hfirst
    (h.coefficientAt_of_lt htotal) hi'
  exact (hpriced.basicIn hc).not_zeroRow

end First

/-! ## Driving out the artificial columns -/

namespace Tableau

variable {T U : Tableau ℚ} {first : ℕ}

/-- Driving a column out of a row with right-hand side zero keeps the tableau canonical, and the row
becomes zero when it is recorded as redundant. -/
theorem zeroRow_driveOut_iff (hT : T.Canonical) (hfirst : first ≤ T.columns) {row : ℕ}
    (hrow : row ≠ 0) (hlt : row < T.matrix.height) (hzero : T.rhs row = 0) {column : ℕ}
    (h : (T.driveOut 0 first row column).result = .ok U) :
    U.Canonical ∧ ∀ i ≠ 0, (∀ j, U.entry i j = 0) ↔ (∀ j, T.entry i j = 0) ∨
      .redundantRow i ∈ (T.driveOut 0 first row column).events := by
  obtain ⟨V, hV, hdriven⟩ := exists_driveOut hT.tolerance_eq le_rfl hfirst hlt column
  rw [h] at hV
  cases hV
  have hcolumns := hdriven.columns
  have hcanonical : (∀ i ≠ 0, (∀ j, U.entry i j = 0) ∨ ∃ c, U.BasicIn i c) → U.Canonical := by
    intro hrows
    refine ⟨hdriven.tolerance.trans hT.tolerance_eq, hrows, fun i hi => ?_⟩
    rw [hdriven.rhs_eq hzero]
    exact hT.rhs_nonneg i hi
  cases hfind : (List.range first).find? fun j => Scalar.isSignificant 0 (T.entry row j) with
  | some replacement =>
    have hreplacement : replacement < first := List.mem_range.1 (List.mem_of_find?_eq_some hfind)
    rw [driveOut_of_find?_eq_some hfind] at h ⊢
    have hpivot : T.PivotOf row replacement U :=
      pivotOf_of_eq_ok hT.tolerance_eq.ge ((Recorded.result_guarded_eq_ok_iff _ _).1 h)
    have hcolumn : replacement < T.columns := by omega
    refine ⟨hcanonical (hpivot.zeroOrBasic hT.zero_or_basic hrow hcolumn), fun i hi => ?_⟩
    rw [hpivot.zeroRow_iff hT hrow hcolumn hi]
    simp
  | none =>
    rw [driveOut_of_find?_eq_none hfind] at h ⊢
    obtain ⟨V, hV, hcleared⟩ := exists_clearRow_eq_ok (T := T) hlt
    have hclear := (Recorded.result_guarded_eq_ok_iff _ _).1 h
    rw [hV] at hclear
    cases hclear
    have hentry := hcleared.entry
    -- The row is zero now, and all other rows are as they were.
    have hrows : ∀ i ≠ 0, (∀ j, U.entry i j = 0) ↔ (∀ j, T.entry i j = 0) ∨ i = row := by
      intro i _
      simp only [hentry]
      by_cases hi : i = row
      · simp [hi]
      · simp [hi]
    refine ⟨hcanonical fun i hi => ?_, fun i hi => by rw [hrows i hi]; simp⟩
    rcases hT.zero_or_basic i hi with hempty | ⟨c, hc⟩
    · exact Or.inl ((hrows i hi).2 (Or.inl hempty))
    · by_cases hir : i = row
      · exact Or.inl ((hrows i hi).2 (Or.inr hir))
      · refine Or.inr ⟨c, by rw [hcolumns]; exact hc.lt_columns, hi, ?_, fun k hk => ?_⟩
        · rw [hentry, if_neg hir, hc.entry_eq_one]
        · rw [hentry, hc.entry_eq_zero k hk]
          simp

/-- Going over rows keeps the tableau canonical, when those with an artificial column have
right-hand side zero, and the rows that become zero are those recorded as redundant. -/
theorem zeroRow_foldlM_expungeRow_iff (basic : ℕ → Option ℕ) {rows : List ℕ} (hT : T.Canonical)
    (hfirst : first ≤ T.columns) (hrows : ∀ row ∈ rows, row ≠ 0 ∧ row < T.matrix.height)
    (hzero : ∀ row ∈ rows, ∀ c, basic row = some c → first ≤ c → T.rhs row = 0)
    (h : ((rows.map fun row => (row, basic row)).foldlM (expungeRow 0 first) T).result = .ok U) :
    U.Canonical ∧ ∀ i ≠ 0, (∀ j, U.entry i j = 0) ↔ (∀ j, T.entry i j = 0) ∨
      .redundantRow i ∈ ((rows.map fun row => (row, basic row)).foldlM
        (expungeRow 0 first) T).events := by
  induction rows generalizing T with
  | nil =>
    cases h
    exact ⟨hT, fun i _ => by simp⟩
  | cons row rows ih =>
    obtain ⟨hrow, hlt⟩ := hrows row List.mem_cons_self
    rw [List.map_cons, List.foldlM_cons] at h ⊢
    obtain ⟨V, hV, h⟩ := (Recorded.result_bind_eq_ok_iff _ _ _).1 h
    rw [Recorded.events_bind_of_ok _ hV]
    -- The step: it keeps the shape and the right-hand sides, and says which row becomes zero.
    obtain ⟨hcanonical, hmatrix, hrhs, hstep⟩ : V.Canonical ∧
        (V.columns = T.columns ∧ V.matrix.height = T.matrix.height) ∧ (∀ i, V.rhs i = T.rhs i) ∧
          ∀ i ≠ 0, (∀ j, V.entry i j = 0) ↔ (∀ j, T.entry i j = 0) ∨
            .redundantRow i ∈ (expungeRow 0 first T (row, basic row)).events := by
      rcases le_or_forall_lt first (basic row) with ⟨c, hbasic, hle⟩ | hbefore
      · rw [hbasic, expungeRow_of_le hle] at hV ⊢
        have hlevel := hzero row List.mem_cons_self c hbasic hle
        obtain ⟨W, hW, hdriven⟩ := exists_driveOut hT.tolerance_eq le_rfl hfirst hlt c
        rw [hV] at hW
        cases hW
        obtain ⟨hcanonical, hstep⟩ := zeroRow_driveOut_iff hT hfirst hrow hlt hlevel hV
        exact ⟨hcanonical, ⟨hdriven.columns, hdriven.height⟩, hdriven.rhs_eq hlevel, hstep⟩
      · rw [expungeRow_of_lt hbefore] at hV ⊢
        cases hV
        exact ⟨hT, ⟨rfl, rfl⟩, fun _ => rfl, fun i _ => by simp⟩
    obtain ⟨hlast, hrest⟩ := ih hcanonical (by rw [hmatrix.1]; exact hfirst)
      (fun i hi => by rw [hmatrix.2]; exact hrows i (List.mem_cons_of_mem row hi))
      (fun i hi c hc hle => by rw [hrhs]; exact hzero i (List.mem_cons_of_mem row hi) c hc hle) h
    refine ⟨hlast, fun i hi => ?_⟩
    rw [hrest i hi, hstep i hi, List.mem_append, or_assoc]

/-- From a canonical tableau with right-hand side zero wherever an artificial column is basic, the
rows that become zero are those that are recorded as redundant. -/
theorem zeroRow_expunge_iff (hT : T.Canonical) {artificials : List Artificial}
    (hfirst : T.firstArtificial artificials ≤ T.columns)
    (hzero : ∀ row c, T.basicColumn row = some c → T.firstArtificial artificials ≤ c →
      T.rhs row = 0) (h : (T.expunge 0 artificials).result = .ok U) {i : ℕ} (hi : i ≠ 0) :
    (∀ j, U.entry i j = 0) ↔
      (∀ j, T.entry i j = 0) ∨ .redundantRow i ∈ (T.expunge 0 artificials).events := by
  rw [expunge_eq_foldlM] at h ⊢
  exact (zeroRow_foldlM_expungeRow_iff T.basicColumn hT hfirst
    (fun row hrow => (T.mem_constraintRows row).1 hrow) (fun row _ c => hzero row c) h).2 i hi

end Tableau

/-- The zero rows of the tableau handed over are those of the tableau without artificial columns. -/
theorem HandedOver.zeroRow_iff {A : Model ℚ} {o : Objective ℚ} {last U R : Tableau ℚ}
    (h : HandedOver A o last U R) {i : ℕ} (hi : i ≠ 0) :
    (∀ j, R.entry i j = 0) ↔ ∀ j, U.entry i j = 0 := by
  obtain ⟨S, hrestored, hpriced⟩ := h.exists_repriced
  constructor
  · intro hzero
    rcases h.readsBasis.zero_or_basicColumn i hi with hbefore | ⟨c, hc⟩
    · exact hbefore
    · -- The one of a basic column is handed over.
      have hone : R.entry i c = 1 := by
        rw [hpriced.entry_of_ne i hi, hrestored.entry_of_ne i hi c (h.lt_width i c hc),
          (h.readsBasis.unitIn i c hc).entry_eq_one]
      rw [hzero] at hone
      exact absurd hone zero_ne_one
  · intro hzero j
    rw [hpriced.entry_of_ne i hi, hrestored.entry_eq_zero hi hzero]

/-! ## The phases of a solve -/

namespace Model

variable {M : Model ℚ} {o : Objective ℚ} {settings : Settings ℚ}

/-- Each phase starts from a canonical tableau, in which the zero rows are those that phase one has
recorded as redundant when it is phase two. -/
theorem HasPhase.exists_start (hM : M.Scoped) (ho : M.objective = some o)
    (hsome : M.constraints.isEmpty = false) (htol : settings.tolerance = 0) {number : ℕ}
    {phase : Phase ℚ} (h : M.HasPhase settings number phase) :
    ∃ T : Tableau ℚ, phase = Phase.run settings T ∧ T.Canonical ∧ ∀ i ∈ T.constraintRows,
      (∀ j, T.entry i j = 0) ↔ number = 2 ∧ .redundantRow i ∈ (M.solve settings).events := by
  have hslacks := StandardForm.length_slacks_ofModel M
  simp only [redundantRow_mem_events_solve_iff ho hsome]
  cases h with
  | only hskip hinitial =>
    rw [htol] at hinitial
    refine ⟨_, rfl, (startsFrom_of_tableau hM ho hskip hinitial).canonical, fun i hi => ?_⟩
    rw [hskip]
    simpa using not_zeroRow_of_tableau hM ho hskip hinitial hi
  | one hneeds hprogram hinitial =>
    rw [htol] at hinitial
    obtain ⟨hof, hstart⟩ := startOf_of_eq_ok hM hprogram hinitial
    have hunit := fun k n hk =>
      (StandardForm.unitColumn_of_slack (M := M) (k := k) (n := n) hM hk).1
    refine ⟨_, rfl, hstart.canonical, fun i hi => ?_⟩
    simpa using hof.not_zeroRow hslacks hunit hinitial hi
  | @two initial restored iterations hneeds hone =>
    obtain ⟨program, U, hprogram, hinitial, hstart, hzero, hU, hhanded, hcanonical, hevents⟩ :=
      exists_handedOver_of_phaseOne hM ho htol hone
    refine ⟨restored, rfl, hcanonical, fun i hi => ?_⟩
    obtain ⟨hne, hlt⟩ := (restored.mem_constraintRows i).1 hi
    obtain ⟨hle, -, hfirst⟩ := hstart.artificials_last settings hprogram
    obtain ⟨hlast, hheight, hrows⟩ := Phase.canonical_of_mem_visited settings hstart.canonical _
      (Phase.run settings initial).last_mem_visited
    have hi' : i ∈ initial.constraintRows := by
      rw [initial.mem_constraintRows, ← hheight, ← hhanded.height]
      exact ⟨hne, hlt⟩
    have hnone := hprogram.not_zeroRow hslacks
      (fun k n hk => (StandardForm.unitColumn_of_slack hM hk).1) hinitial hi'
    -- The rows of phase one are not zero, and only those recorded become so.
    calc (∀ j, restored.entry i j = 0) ↔ ∀ j, U.entry i j = 0 := hhanded.zeroRow_iff hne
      _ ↔ (∀ j, (Phase.run settings initial).last.entry i j = 0) ∨
            .redundantRow i ∈ ((Phase.run settings initial).last.expunge 0
              program.artificials).events :=
          Tableau.zeroRow_expunge_iff hlast (by rw [hfirst]; exact hle)
            (hstart.rhs_eq_zero_of_basicColumn hprogram hzero) hU hne
      _ ↔ .redundantRow i ∈ ((StandardForm.ofModel M).phaseOne settings).events := by
          rw [hrows i hne, hevents]
          exact or_iff_right hnone
      _ ↔ _ := by simp [hneeds]

/-- Every tableau that a solve goes through is canonical: a constraint row that was recorded as
redundant is zero in phase two and the basis has no column for it, and for every other constraint
row the basis has a column that is the unit vector of the row, with objective entry zero. No
right-hand side of a constraint row is negative. From each tableau to the next the objective value
never gets smaller, and it gets larger exactly when the right-hand side of the leaving row was
positive. -/
theorem solve_visits_canonical (name : String) (calls : List (Call ℚ)) {settings : Settings ℚ}
    (htol : settings.tolerance = 0) {number : ℕ} {phase : Phase ℚ}
    (h : .phase number phase ∈ ((built name calls).solve settings).events) :
    (∀ T ∈ phase.visited, ∀ i ∈ T.constraintRows, 0 ≤ T.rhs i ∧
      (number = 2 ∧ .redundantRow i ∈ ((built name calls).solve settings).events →
        (∀ j, T.entry i j = 0) ∧ T.basis[i - 1]? = some none) ∧
      (¬(number = 2 ∧ .redundantRow i ∈ ((built name calls).solve settings).events) →
        ∃ c, T.basis[i - 1]? = some (some c) ∧ T.BasicIn i c)) ∧
    ∀ p ∈ phase.visited.zip phase.steps,
      p.1.objectiveValue ≤ p.2.tableau.objectiveValue ∧
        (p.1.objectiveValue < p.2.tableau.objectiveValue ↔ 0 < p.1.rhs p.2.row) := by
  have hM : (built name calls : Model ℚ).Scoped := scoped_built name calls
  obtain ⟨⟨o, ho⟩, hsome, hphase⟩ := hasPhase_of_mem_events h
  obtain ⟨S, rfl, hS, hzero⟩ := hphase.exists_start hM ho hsome htol
  refine ⟨fun T hT i hi => ?_, Phase.objectiveValue_of_mem_zip settings hS⟩
  obtain ⟨hcanonical, hheight, hrows⟩ := Phase.canonical_of_mem_visited settings hS T hT
  obtain ⟨hne, hlt⟩ := (T.mem_constraintRows i).1 hi
  have hi' : i ∈ S.constraintRows := by
    rw [S.mem_constraintRows, ← hheight]
    exact ⟨hne, hlt⟩
  obtain ⟨hnone, hbasic⟩ := hcanonical.getElem?_basis hi
  rw [← hzero i hi', ← hrows i hne]
  exact ⟨hcanonical.rhs_nonneg i hne, fun hempty => ⟨hempty, hnone hempty⟩, hbasic⟩

/-- Make `y` large, with `x + y = 2` stated twice, the second time doubled. Phase one makes `x`
basic, and phase two exchanges it for `y`. -/
def exchangedCalls : List (Call ℚ) :=
  let x : Variable := ⟨0, "x"⟩
  let y : Variable := ⟨1, "y"⟩
  [.addVariable "x", .addVariable "y",
    .addConstraint ⟨[⟨1, x⟩, ⟨1, y⟩], 0⟩ .equal 2,
    .addConstraint ⟨[⟨2, x⟩, ⟨2, y⟩], 0⟩ .equal 4,
    .maximize ⟨[⟨1, y⟩], 0⟩]

/-- Phase two of that model makes a pivot, with a redundant row, and goes through such tableaux. -/
theorem solve_visits_canonical_exchanged : ∃ phase,
    exactSettings.tolerance = 0 ∧
    .phase 2 phase ∈ ((built "exchanged" exchangedCalls).solve exactSettings).events ∧
    phase.iterations = 1 ∧
    .redundantRow 2 ∈ ((built "exchanged" exchangedCalls).solve exactSettings).events ∧
    (∀ T ∈ phase.visited, ∀ i ∈ T.constraintRows, 0 ≤ T.rhs i ∧
      (2 = 2 ∧ .redundantRow i ∈ ((built "exchanged" exchangedCalls).solve exactSettings).events →
        (∀ j, T.entry i j = 0) ∧ T.basis[i - 1]? = some none) ∧
      (¬(2 = 2 ∧
          .redundantRow i ∈ ((built "exchanged" exchangedCalls).solve exactSettings).events) →
        ∃ c, T.basis[i - 1]? = some (some c) ∧ T.BasicIn i c)) ∧
    ∀ p ∈ phase.visited.zip phase.steps,
      p.1.objectiveValue ≤ p.2.tableau.objectiveValue ∧
        (p.1.objectiveValue < p.2.tableau.objectiveValue ↔ 0 < p.1.rhs p.2.row) := by
  have hphase : (2, 1) ∈ (((built "exchanged" exchangedCalls).solve exactSettings).events.filterMap
      Event.phase?).map fun p => (p.1, p.2.iterations) := by
    decide +kernel
  have hcleared : 2 ∈ ((built "exchanged" exchangedCalls).solve exactSettings).events.filterMap
      Event.redundantRow? := by
    decide +kernel
  obtain ⟨⟨number, phase⟩, hphase, hcounted⟩ := List.mem_map.1 hphase
  obtain ⟨rfl, hpivots⟩ := Prod.mk.inj hcounted
  have hmem := Event.mem_filterMap_phase?_iff.1 hphase
  have hredundant := Event.mem_filterMap_redundantRow?_iff.1 hcleared
  exact ⟨phase, rfl, hmem, hpivots, hredundant,
    solve_visits_canonical "exchanged" exchangedCalls rfl hmem⟩

end Model

end LinProg
