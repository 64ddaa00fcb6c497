import LinProg.Proofs.PhaseOne
import LinProg.Proofs.Restored
import LinProg.Proofs.Rounding

/-!
# No artificial column is left

With a tolerance the scan for a basis may take a nearly unit column for basic, in place of the one
that the row owns. The objective of phase one sets a limit to that. It is the negated total of the
artificial variables, so the objective entry of a column before them is, up to the sign, the total
of its entries in the rows that own an artificial column (`Totals.entry_zero`). A column that is
nearly basic in such a row has an entry near one there, and entries near zero in the objective row
and all others, which cannot add up when the tolerance is small enough for the number of rows
(`Totals.lt_of_nearBasic`).

So a row whose basic column is not artificial owns a column that is not artificial, and driving out
the others settles all rows (`Totals.exists_expunge`). Then no artificial column is basic, whatever
column the scan takes for basic, and the objective is restored from columns that are left
(`solve_expels_artificials`). -/

namespace LinProg

namespace Tableau

variable {T U : Tableau ℚ} {basic : ℕ → ℕ} {first i column : ℕ}

/-! ## Exchanges -/

/-- The direction in which a column grows by one, and the basic columns of the rows make up for
it. -/
def exchange (T : Tableau ℚ) (basic : ℕ → ℕ) (column j : ℕ) : ℚ :=
  (if j = column then 1 else 0) -
    ∑ k ∈ Finset.Ico 1 T.matrix.height, if j = basic k then T.entry k column else 0

/-- A weighted sum over an exchange is the weight of the column less those of the basic columns. -/
theorem sum_mul_exchange (T : Tableau ℚ) (basic : ℕ → ℕ) (column : ℕ) (s : Finset ℕ)
    (weight : ℕ → ℚ) :
    ∑ j ∈ s, weight j * T.exchange basic column j =
      (if column ∈ s then weight column else 0) - ∑ k ∈ Finset.Ico 1 T.matrix.height,
        if basic k ∈ s then weight (basic k) * T.entry k column else 0 := by
  unfold exchange
  simp only [mul_sub, Finset.sum_sub_distrib, Finset.mul_sum]
  rw [Finset.sum_comm]
  simp only [mul_ite, mul_one, mul_zero, Finset.sum_ite_eq']

/-- The rows of the tableau from row 1 on are its constraint rows. -/
theorem mem_constraintRows_iff_mem_Ico (T : Tableau ℚ) (row : ℕ) :
    row ∈ T.constraintRows ↔ row ∈ Finset.Ico 1 T.matrix.height := by
  rw [mem_constraintRows, Finset.mem_Ico, Nat.one_le_iff_ne_zero]

/-- Along an exchange the equations stay met, and the objective row changes by the entry of the
column. -/
theorem rowValue_exchange (hbasic : ∀ k ∈ T.constraintRows, T.BasicIn k (basic k))
    (hcolumn : column < T.columns) (i : ℕ) :
    T.rowValue i (T.exchange basic column) = if i = 0 then T.entry 0 column else 0 := by
  -- Of the basic columns only that of the row itself has an entry in the row.
  have hterm : ∀ k ∈ Finset.Ico 1 T.matrix.height,
      (if basic k ∈ Finset.range T.columns then T.entry i (basic k) * T.entry k column else 0) =
        if i = k then T.entry k column else 0 := by
    intro k hk
    have hk := hbasic k ((T.mem_constraintRows_iff_mem_Ico k).2 hk)
    rw [if_pos (Finset.mem_range.2 hk.lt_columns)]
    split
    · rename_i hik
      rw [hik, hk.entry_eq_one, one_mul]
    · rename_i hik
      rw [hk.entry_eq_zero i hik, zero_mul]
  unfold rowValue
  rw [sum_mul_exchange, if_pos (Finset.mem_range.2 hcolumn), Finset.sum_congr rfl hterm,
    Finset.sum_ite_eq]
  by_cases hi : i = 0
  · rw [hi, if_neg (by simp), if_pos rfl, sub_zero]
  · rw [if_neg hi]
    split
    · exact sub_self _
    · rename_i hbelow
      rw [Finset.mem_Ico] at hbelow
      rw [T.entry_eq_zero_of_height_le (by omega), sub_zero]

/-! ## The objective of phase one -/

/-- Along a direction in which the equations stay met the objective row adds up the columns from
`first` on. -/
def Totals (T : Tableau ℚ) (first : ℕ) : Prop :=
  ∀ d : ℕ → ℚ, (∀ i ≠ 0, T.rowValue i d = 0) →
    T.rowValue 0 d = ∑ j ∈ Finset.Ico first T.columns, d j

/-- Equivalent tableaux have the same totals. -/
theorem Totals.of_equivalent (h : T.Totals first) (hU : T.Equivalent U) : U.Totals first := by
  intro d hd
  have hd' := hU.symm.rowValue_eq_zero hd
  rw [hU.rowValue_zero_eq hd', h d hd', hU.columns]

/-- The objective entry of a column before `first` is the negated total of its entries in the rows
whose basic column is not before it. -/
theorem Totals.entry_zero (h : T.Totals first)
    (hbasic : ∀ k ∈ T.constraintRows, T.BasicIn k (basic k)) (hle : first ≤ T.columns)
    (hlt : column < first) :
    T.entry 0 column =
      -∑ k ∈ Finset.Ico 1 T.matrix.height, if first ≤ basic k then T.entry k column else 0 := by
  have hvalue := rowValue_exchange hbasic (lt_of_lt_of_le hlt hle)
  have htotal := h (T.exchange basic column) fun i hi => by rw [hvalue, if_neg hi]
  have hsum := T.sum_mul_exchange basic column (Finset.Ico first T.columns) fun _ => 1
  have hterm : ∀ k ∈ Finset.Ico 1 T.matrix.height,
      (if basic k ∈ Finset.Ico first T.columns then T.entry k column else 0) =
        if first ≤ basic k then T.entry k column else 0 := by
    intro k hk
    have hk := (hbasic k ((T.mem_constraintRows_iff_mem_Ico k).2 hk)).lt_columns
    simp only [Finset.mem_Ico, hk, and_true]
  simp only [one_mul] at hsum
  rw [hvalue, if_pos rfl, hsum, if_neg (by rw [Finset.mem_Ico]; omega),
    Finset.sum_congr rfl hterm, zero_sub] at htotal
  exact htotal

/-- With a tolerance below one over the number of rows, a row in which a column before `first` is
nearly basic has its basic column before `first`. -/
theorem Totals.lt_of_nearBasic (h : T.Totals first)
    (hbasic : ∀ k ∈ T.constraintRows, T.BasicIn k (basic k)) (hle : first ≤ T.columns)
    (hsmall : T.matrix.height * T.tolerance < 1) (hlt : column < first)
    (hnear : T.NearBasic i column) : basic i < first := by
  by_contra hge
  obtain ⟨hzero, hi, hone, hothers⟩ := hnear
  let share : ℕ → ℚ := fun k => if first ≤ basic k then T.entry k column else 0
  let others := (Finset.Ico 1 T.matrix.height).erase i
  have hmem := (T.mem_constraintRows_iff_mem_Ico i).1 hi
  have hentry : T.entry 0 column = -(T.entry i column + ∑ k ∈ others, share k) := by
    rw [h.entry_zero hbasic hle hlt, ← Finset.add_sum_erase _ share hmem]
    exact congrArg (fun x => -(x + ∑ k ∈ others, share k)) (if_pos (not_lt.1 hge))
  -- The other rows have entries near zero in the column.
  have htol : 0 ≤ T.tolerance := (abs_nonneg _).trans hzero
  have hshare : ∀ k ∈ others, |share k| ≤ T.tolerance := by
    intro k hk
    obtain ⟨hki, hk⟩ := Finset.mem_erase.1 hk
    dsimp only [share]
    split
    · exact hothers k ((T.mem_constraintRows_iff_mem_Ico k).2 hk) hki
    · rw [abs_zero]
      exact htol
  have hcard : others.card + 2 = T.matrix.height := by
    rw [Finset.card_erase_of_mem hmem, Nat.card_Ico]
    have := Finset.mem_Ico.1 hmem
    omega
  have hrest : |∑ k ∈ others, share k| ≤ others.card * T.tolerance :=
    calc |∑ k ∈ others, share k| ≤ ∑ k ∈ others, |share k| := Finset.abs_sum_le_sum_abs _ _
      _ ≤ others.card • T.tolerance := Finset.sum_le_card_nsmul _ _ _ hshare
      _ = others.card * T.tolerance := nsmul_eq_mul _ _
  have hheight : ((others.card : ℚ) + 2) * T.tolerance < 1 := by
    rw [← hcard] at hsmall
    exact_mod_cast hsmall
  rw [abs_le] at hzero hone hrest
  linarith [hzero.2, hone.1, hrest.1]

/-! ## Driving out -/

/-- When the objective adds up the artificial columns and each constraint row owns a column, driving
out the artificial columns settles every row, within a tolerance that is small enough. -/
theorem Totals.exists_expunge (h : T.Totals first)
    (hrows : ∀ i ∈ T.constraintRows, ∃ c, T.BasicIn i c) (hle : first ≤ T.columns)
    (hnonneg : 0 ≤ T.tolerance) (hhalf : T.tolerance < 1 / 2)
    (hsmall : T.matrix.height * T.tolerance < 1) {artificials : List Artificial}
    (hfirst : T.firstArtificial artificials = first) :
    ∃ U, (T.expunge T.tolerance artificials).result = .ok U ∧ U.model = T.model ∧
      U.tolerance = T.tolerance ∧ U.matrix.height = T.matrix.height ∧
      ∀ i ≠ 0, U.Settled first i := by
  choose! basic hbasic using hrows
  subst hfirst
  refine Tableau.exists_expunge rfl hnonneg hle fun i hi hbefore => ?_
  -- The row has a basic column, which is not artificial, so neither is the one that it owns.
  have howned := hbasic i hi
  obtain ⟨c, -, hc⟩ := (howned.nearBasic hnonneg).exists_basicColumn hhalf howned.lt_columns
  have hnear := ((basicColumn_eq_some_iff hhalf i c).1 hc).2.1
  exact Or.inr ⟨basic i, h.lt_of_nearBasic hbasic hle hsmall (hbefore c hc) hnear, howned.unitIn,
    howned.abs_entry_zero_le hnonneg⟩

end Tableau

/-! ## Phase one -/

/-- The objective of the first tableau of phase one adds up the artificial columns. -/
theorem ProgramOf.totals {form : StandardForm ℚ} {program : PhaseOneProgram ℚ}
    (h : ProgramOf form program) {tolerance : ℚ} {T : Tableau ℚ}
    (hT : program.tableau tolerance = .ok T) : T.Totals form.model.vars.length := by
  obtain ⟨total, first, htotal, hfirst, hpriced⟩ := h.exists_priced_of_eq_ok hT
  refine Tableau.Totals.of_equivalent (fun d _ => ?_) hpriced.equivalent
  have hentry : ∀ j ∈ Finset.range first.columns, first.entry 0 j * d j =
      -((if j < form.model.vars.length then (0 : ℚ) else -1) * d j) := by
    intro j hj
    rw [Finset.mem_range, hfirst.columns] at hj
    rw [hfirst.entry_zero j hj, htotal j hj, neg_mul]
  unfold Tableau.rowValue
  rw [Finset.sum_congr rfl hentry, Finset.sum_neg_distrib, hfirst.columns,
    sum_range_ite_neg h.width_le, neg_neg]

/-- The last tableau of phase one has the shape and the tolerance of the first one, its objective
adds up the artificial columns, and each constraint row owns a column. -/
theorem last_phaseOne_spec {M : Model ℚ} {settings : Settings ℚ} {program : PhaseOneProgram ℚ}
    {initial : Tableau ℚ} (hM : M.Scoped) (htol : 0 ≤ settings.tolerance)
    (hprogram : (StandardForm.ofModel M).phaseOneProgram = .ok program)
    (hof : ProgramOf (StandardForm.ofModel M) program)
    (hinitial : program.tableau settings.tolerance = .ok initial) :
    let last := (Phase.run settings initial).last
    last.tolerance = settings.tolerance ∧ last.columns = program.model.vars.length ∧
      last.matrix.height = M.constraints.length + 1 ∧
      last.Totals (StandardForm.ofModel M).model.vars.length ∧
      ∀ i ∈ last.constraintRows, ∃ c, last.BasicIn i c := by
  obtain ⟨htolerance, howns⟩ := exists_owns_of_phaseOneTableau hM hprogram hinitial
  obtain ⟨-, hcolumns, hheight⟩ := hof.shape hinitial
  rw [← htolerance] at htol ⊢
  have hmem := (Phase.run settings initial).last_mem_visited
  obtain ⟨htolerance', hequivalent⟩ := Phase.equivalent_of_mem_visited settings htol _ hmem
  obtain ⟨-, hlast⟩ := Phase.exists_owns_of_mem_visited settings htol howns _ hmem
  refine ⟨htolerance', hequivalent.columns.trans hcolumns, ?_,
    (hof.totals hinitial).of_equivalent hequivalent, fun i hi => ?_⟩
  · rw [hequivalent.height, hheight, StandardForm.length_constraints_ofModel]
  · obtain ⟨c, hc⟩ := hlast i hi
    exact ⟨c, Tableau.owns_iff_basicIn.1 hc⟩

/-! ## The tableau handed over -/

/-- `U` has no artificial column in its basis, and `R` is the tableau of `A` restored from it. -/
structure Expelled (A : Model ℚ) (artificials : List Artificial) (U R : Tableau ℚ) : Prop where
  /-- The columns of `A` come first. -/
  width_le : A.vars.length ≤ U.columns
  /-- The artificial columns are those after them. -/
  map_column : artificials.map (·.column) =
    List.range' A.vars.length (U.columns - A.vars.length)
  /-- A constraint row is zero or has a basic column. -/
  zero_or_basicColumn : ∀ i ≠ 0, (∀ j, U.entry i j = 0) ∨ ∃ c, U.basicColumn i = some c
  /-- The basic column of a constraint row is a column of `A`. -/
  lt_width : ∀ i ∈ U.constraintRows, ∀ c, U.basicColumn i = some c → c < A.vars.length
  /-- The columns that are left are those of `A`. -/
  model : R.model = A
  /-- The constraint rows are the same in these columns. -/
  entry_of_ne : ∀ i ≠ 0, ∀ j < A.vars.length, R.entry i j = U.entry i j
  /-- The right-hand sides of the constraint rows are the same. -/
  rhs_of_ne : ∀ i ≠ 0, R.rhs i = U.rhs i

namespace Expelled

variable {A : Model ℚ} {artificials : List Artificial} {U R : Tableau ℚ} {column : ℕ}

/-- A column of `A` is not artificial. -/
theorem notMem_map_column (h : Expelled A artificials U R) (hlt : column < A.vars.length) :
    column ∉ artificials.map (·.column) := by
  rw [h.map_column, List.mem_range'_1]
  omega

/-- A column of `A` stays at its place when the artificial columns are dropped. -/
theorem getElem?_keptColumns (h : Expelled A artificials U R) (hlt : column < A.vars.length) :
    (DenseMatrix.keptColumns (U.columns + 1) (artificials.map (·.column)))[column]? =
      some column := by
  rw [h.map_column, DenseMatrix.keptColumns_range' h.width_le,
    List.getElem?_append_left (by rw [List.length_range]; exact hlt), List.getElem?_range hlt]

end Expelled

/-- When the objective adds up the artificial columns and each constraint row owns a column, the
artificial columns can be driven out of the basis and the objective restored, within a tolerance
that is small enough. -/
theorem Tableau.Totals.exists_expelled {A : Model ℚ} {o : Objective ℚ} {T : Tableau ℚ}
    (h : T.Totals A.vars.length) (hA : A.Scoped) (ho : A.objective = some o)
    (hmax : A.vars.length ≤ Expression.maxDenseLength) (hle : A.vars.length ≤ T.columns)
    (hheight : 0 < T.matrix.height) (hrows : ∀ i ∈ T.constraintRows, ∃ c, T.BasicIn i c)
    (hnonneg : 0 ≤ T.tolerance) (hhalf : T.tolerance < 1 / 2)
    (hsmall : T.matrix.height * T.tolerance < 1) {artificials : List Artificial}
    (hmap : artificials.map (·.column) = List.range' A.vars.length (T.columns - A.vars.length)) :
    ∃ U R, (T.expunge T.tolerance artificials).result = .ok U ∧
      U.restore T.tolerance A artificials = .ok R ∧ Expelled A artificials U R := by
  obtain ⟨U, hU, hmodel, htolerance, hheight', hsettled⟩ :=
    h.exists_expunge hrows hle hnonneg hhalf hsmall (Tableau.firstArtificial_eq hle hmap)
  have hcolumns : U.columns = T.columns := Tableau.columns_eq_of_model_eq hmodel
  rw [← htolerance] at hhalf
  rw [← hcolumns] at hle hmap
  have hlt : ∀ i ∈ U.constraintRows, ∀ c, U.basicColumn i = some c → c < A.vars.length := by
    intro i hi c hc
    exact (hsettled i ((U.mem_constraintRows i).1 hi).1).lt_of_basicColumn hhalf hc
  obtain ⟨S, R, hR, hrestored, -, hrepriced⟩ :=
    Tableau.exists_restore hA ho hmax hle (by rw [hheight']; exact hheight) hlt hmap
  rw [htolerance] at hR
  refine ⟨U, R, hU, hR, hle, hmap, fun i hi => ?_, hlt, hrepriced.model.trans hrestored.model,
    fun i hi j hj => ?_, fun i hi => ?_⟩
  · rcases (hsettled i hi).zero_or_basicColumn hhalf with hzero | ⟨c, -, hc⟩
    · exact Or.inl hzero
    · exact Or.inr ⟨c, hc⟩
  · rw [hrepriced.entry_of_ne i hi, hrestored.entry_of_ne i hi j hj]
  · rw [hrepriced.rhs hi, hrestored.rhs_of_ne i hi]

/-- When phase one ends with a tolerance that is small enough for the number of constraints, the
artificial columns can be driven out of the basis, and the objective can be restored. -/
theorem exists_expelled_of_phaseOne {M : Model ℚ} {o : Objective ℚ} {settings : Settings ℚ}
    {program : PhaseOneProgram ℚ} {initial : Tableau ℚ} (hM : M.Scoped)
    (ho : M.objective = some o) (hsome : M.constraints.isEmpty = false)
    (htol : 0 ≤ settings.tolerance)
    (hsmall : (M.constraints.length + 1) * settings.tolerance < 1)
    (hprogram : (StandardForm.ofModel M).phaseOneProgram = .ok program)
    (hinitial : program.tableau settings.tolerance = .ok initial) :
    ∃ U R, ((Phase.run settings initial).last.expunge settings.tolerance
        program.artificials).result = .ok U ∧
      U.restore settings.tolerance (StandardForm.ofModel M).model program.artificials = .ok R ∧
      Expelled (StandardForm.ofModel M).model program.artificials U R := by
  have hstandard := StandardForm.isStandard_ofModel hM
  have hof := programOf_of_eq_ok hstandard (StandardForm.length_slacks_ofModel M) hprogram
  obtain ⟨htolerance, hcolumns, hheight, htotals, hrows⟩ :=
    last_phaseOne_spec hM htol hprogram hof hinitial
  -- There are at least two rows, so the tolerance is below one half.
  have hhalf : settings.tolerance < 1 / 2 := by
    have hlength : (1 : ℚ) ≤ M.constraints.length := by
      rw [List.isEmpty_eq_false_iff] at hsome
      exact_mod_cast List.length_pos_iff.2 hsome
    have hmul := mul_le_mul_of_nonneg_right hlength htol
    linarith
  have hle := hof.width_le
  have hmap := hof.map_column
  rw [← hcolumns] at hle hmap
  rw [← htolerance] at htol hhalf ⊢
  refine htotals.exists_expelled hstandard.toScoped (StandardForm.objective_ofModel ho)
    (hof.width_le.trans (hof.le_maxDenseLength hinitial)) hle
    (by rw [hheight]; exact Nat.succ_pos _) hrows htol hhalf ?_ hmap
  rw [hheight, htolerance]
  exact_mod_cast hsmall

/-! ## The solve -/

namespace Model

/-- No artificial column is left for phase two, within a tolerance that is small enough for the
number of constraints. When phase one gets as far as driving the artificial columns out, it ends
feasible. Each constraint row is zero then or has a basic column that is not artificial. The columns
priced out are columns of the standard form, which stay at their places when the artificial ones are
dropped, and the restored tableau has these columns and the right-hand sides. -/
theorem solve_expels_artificials (name : String) (calls : List (Call ℚ)) {settings : Settings ℚ}
    (htol : 0 ≤ settings.tolerance)
    (hsmall : ((built name calls).constraints.length + 1) * settings.tolerance < 1)
    {program : PhaseOneProgram ℚ} {phase : Phase ℚ} {levels : List ℚ}
    (hprogram : (StandardForm.ofModel (built name calls)).phaseOneProgram = .ok program)
    (hphase : .phase 1 phase ∈ ((built name calls).solve settings).events)
    (hending : phase.ending = .optimal)
    (hlevels : phase.last.artificialValues program.artificials = .ok levels)
    (hnone : (levels.any fun level => settings.tolerance < level) = false) :
    let A := (StandardForm.ofModel (built name calls)).model
    ∃ expunged restored : Tableau ℚ,
      (phase.last.expunge settings.tolerance program.artificials).result = .ok expunged ∧
      (∀ row ∈ expunged.constraintRows, (∀ j, expunged.entry row j = 0) ∨
        ∃ column, expunged.basis[row - 1]? = some (some column) ∧
          column ∉ program.artificials.map (·.column)) ∧
      expunged.restore settings.tolerance A program.artificials = .ok restored ∧
      (∀ row column, (row, some column) ∈ expunged.constraintRows.zip expunged.basis →
        column ∉ program.artificials.map (·.column) ∧ column < A.vars.length ∧
          (DenseMatrix.keptColumns (expunged.columns + 1)
            (program.artificials.map (·.column)))[column]? = some column) ∧
      restored.model = A ∧ (∀ row ∈ restored.matrix.rows, row.length = A.vars.length + 1) ∧
      (∀ i ∈ restored.constraintRows, restored.rhs i = expunged.rhs i ∧
        ∀ j < A.vars.length, restored.entry i j = expunged.entry i j) ∧
      ((StandardForm.ofModel (built name calls)).phaseOne settings).result =
        .ok (.feasible phase.start restored phase.iterations) := by
  intro A
  obtain ⟨⟨o, ho⟩, hsome, hhas⟩ := hasPhase_of_mem_events hphase
  cases hhas with
  | @one program' initial _ hprogram' hinitial =>
    rw [hprogram] at hprogram'
    cases hprogram'
    obtain ⟨U, R, hU, hR, hexpelled⟩ := exists_expelled_of_phaseOne (scoped_built name calls) ho
      hsome htol hsmall hprogram hinitial
    refine ⟨U, R, hU, fun row hrow => ?_, hR, fun row column hmem => ?_, hexpelled.model,
      fun row hrow => ?_, fun i hi => ?_,
      StandardForm.phaseOne_eq_feasible hprogram hinitial hending hlevels hnone hU hR⟩
    · rw [U.getElem?_basis hrow]
      rcases hexpelled.zero_or_basicColumn row ((U.mem_constraintRows row).1 hrow).1 with
        hzero | ⟨c, hc⟩
      · exact Or.inl hzero
      · exact Or.inr ⟨c, by rw [hc],
          hexpelled.notMem_map_column (hexpelled.lt_width row hrow c hc)⟩
    · obtain ⟨hrow, hc⟩ := (U.mem_constraintRows_zip_basis_iff row column).1 hmem
      have hlt := hexpelled.lt_width row hrow column hc
      exact ⟨hexpelled.notMem_map_column hlt, hlt, hexpelled.getElem?_keptColumns hlt⟩
    · rw [R.matrix.length_row row hrow, hexpelled.model]
    · have hne := ((R.mem_constraintRows i).1 hi).1
      exact ⟨hexpelled.rhs_of_ne i hne, hexpelled.entry_of_ne i hne⟩

/-- With a tolerance of one tenth, phase one of the model with a repeated constraint clears the
second row, in which an artificial variable is basic to the end. -/
theorem solve_expels_artificials_repeated :
    let settings : Settings ℚ := { exactSettings with tolerance := 1 / 10 }
    let form := StandardForm.ofModel (built "repeated" repeatedCalls)
    ∃ program phase levels,
      0 ≤ settings.tolerance ∧
      ((built "repeated" repeatedCalls).constraints.length + 1) * settings.tolerance < 1 ∧
      form.phaseOneProgram = .ok program ∧
      .phase 1 phase ∈ ((built "repeated" repeatedCalls).solve settings).events ∧
      phase.ending = .optimal ∧
      phase.last.artificialValues program.artificials = .ok levels ∧
      (levels.any fun level => settings.tolerance < level) = false ∧
      .redundantRow 2 ∈ (phase.last.expunge settings.tolerance program.artificials).events ∧
      ∃ expunged restored : Tableau ℚ,
        (phase.last.expunge settings.tolerance program.artificials).result = .ok expunged ∧
        (∀ row ∈ expunged.constraintRows, (∀ j, expunged.entry row j = 0) ∨
          ∃ column, expunged.basis[row - 1]? = some (some column) ∧
            column ∉ program.artificials.map (·.column)) ∧
        expunged.restore settings.tolerance form.model program.artificials = .ok restored ∧
        restored.model = form.model ∧
        (form.phaseOne settings).result =
          .ok (.feasible phase.start restored phase.iterations) := by
  intro settings form
  have htol : 0 ≤ settings.tolerance := by decide +kernel
  have hsmall : ((built "repeated" repeatedCalls : Model ℚ).constraints.length + 1) *
      settings.tolerance < 1 := by decide +kernel
  have hneeds : form.needsPhaseOne = true := by decide +kernel
  have hresult : (match (form.phaseOne settings).result with
      | .ok (.feasible _ _ _) => true
      | _ => false) = true := by
    decide +kernel
  have hcleared : 2 ∈ (form.phaseOne settings).events.filterMap Event.redundantRow? := by
    decide +kernel
  split at hresult
  · rename_i initial restored iterations hone
    obtain ⟨program, levels, -, hprogram, hinitial, hending, hlevels, hnone, -, -⟩ :=
      StandardForm.exists_of_phaseOne_eq_feasible hone
    have hphase := HasPhase.mem_events (M := built "repeated" repeatedCalls) rfl rfl
      (.one hneeds hprogram hinitial)
    have hmem := Event.mem_filterMap_redundantRow?_iff.1 hcleared
    rw [StandardForm.events_phaseOne hprogram hinitial hending hlevels hnone] at hmem
    obtain ⟨U, R, hU, hrows, hR, -, hmodel, -, -, hfeasible⟩ := solve_expels_artificials "repeated"
      repeatedCalls htol hsmall hprogram hphase hending hlevels hnone
    exact ⟨program, _, levels, htol, hsmall, hprogram, hphase, hending, hlevels, hnone,
      by simpa using hmem, U, R, hU, hrows, hR, hmodel, hfeasible⟩
  · exact absurd hresult Bool.false_ne_true

end Model

end LinProg
