import LinProg.Proofs.Expunge
import LinProg.Proofs.FirstTableau
import LinProg.Proofs.Pricing

/-!
# From phase one to phase two

Once every row is settled, the artificial columns are dropped, row 0 becomes the objective row of
the standard form, and the basic columns are priced out. The columns that are left are those of the
standard form (`keptColumns_range'`). `RestoredFrom` is the tableau before pricing out: below row 0
it is the tableau of phase one without the artificial columns, so its solutions are those of phase
one in which the artificial variables are zero (`RestoredFrom.solves_iff`), and its objective is
that of the standard form. When no artificial column is basic this always succeeds, whatever the
tolerance (`exists_restore`). When the basis can be read off as well, pricing out keeps the
equations and the objective (`RestoredFrom.priced`), and each row is zero or has a basic column
again (`RestoredFrom.zeroOrBasic`). -/

namespace LinProg

namespace DenseMatrix

/-- When the columns from `n` to `k` are dropped, those before them and the last one are left. -/
theorem keptColumns_range' {n k : ℕ} (h : n ≤ k) :
    keptColumns (k + 1) (List.range' n (k - n)) = List.range n ++ [k] := by
  have hmem : ∀ j, (List.range' n (k - n)).contains j = true ↔ n ≤ j ∧ j < k := by
    intro j
    rw [List.contains_iff_mem, List.mem_range'_1]
    omega
  -- The columns are those before the block, the block, and that of the right-hand sides.
  have hsplit : List.range (k + 1) = List.range n ++ (List.range' n (k - n) ++ [k]) := by
    have happend := List.range'_append_1 (s := 0) (m := n) (n := k - n)
    rw [Nat.zero_add, Nat.add_sub_cancel' h] at happend
    rw [List.range_succ, ← List.append_assoc, List.range_eq_range', List.range_eq_range', happend]
  have hfront : (List.range n).filter (fun j => !(List.range' n (k - n)).contains j) =
      List.range n := by
    rw [List.filter_eq_self]
    intro j hj
    have hlt := List.mem_range.1 hj
    rw [Bool.not_eq_true', ← Bool.not_eq_true, hmem]
    omega
  have hmiddle : (List.range' n (k - n)).filter
      (fun j => !(List.range' n (k - n)).contains j) = [] := by
    rw [List.filter_eq_nil_iff]
    intro j hj
    rw [List.contains_iff_mem.2 hj]
    exact Bool.false_ne_true
  have hlast : [k].filter (fun j => !(List.range' n (k - n)).contains j) = [k] := by
    rw [List.filter_eq_self]
    intro j hj
    have hjk := List.mem_singleton.1 hj
    rw [Bool.not_eq_true', ← Bool.not_eq_true, hmem]
    omega
  unfold keptColumns
  rw [hsplit, List.filter_append, List.filter_append, hfront, hmiddle, hlast, List.nil_append]

variable {n : ℕ}

/-- Dropping columns keeps the number of rows. -/
theorem height_dropColumns (M : DenseMatrix ℚ n) (dropped : List ℕ) :
    (M.dropColumns dropped).height = M.height := by
  simp [height, dropColumns]

/-- The entries that are left are those of the columns that are kept. -/
theorem entry_dropColumns (M : DenseMatrix ℚ n) (dropped : List ℕ) (i j : ℕ) :
    (M.dropColumns dropped).entry i j =
      Row.entry ((keptColumns n dropped).map (M.entry i)) j := by
  rcases lt_or_ge i M.height with hi | hi
  · have hrow : (M.dropColumns dropped).row i =
        (keptColumns n dropped).map (Row.entry (M.row i)) := by
      have hi' : i < M.rows.length := hi
      simp [row, dropColumns, hi']
    unfold entry
    rw [hrow]
  · -- Below the last row both sides are zero.
    have hzero : M.entry i = fun _ => 0 := funext fun j => M.entry_of_height_le hi j
    rw [entry_of_height_le _ (by rw [height_dropColumns]; exact hi), hzero, List.map_const']
    exact (Row.entry_replicate_zero _ _).symm

/-- Columns that exist can be dropped. -/
theorem removeColumns_eq_ok (M : DenseMatrix ℚ n) {dropped : List ℕ} (h : ∀ j ∈ dropped, j < n) :
    M.removeColumns dropped = .ok (M.dropColumns dropped) :=
  if_pos h

/-- Another row leaves the number of rows as it is. -/
theorem height_overwriteRow (M : DenseMatrix ℚ n) (i : ℕ) (entries : List ℚ)
    (h : entries.length = n) : (M.overwriteRow i entries h).height = M.height := by
  simp [overwriteRow, height]

/-- A row that exists can be replaced by one of the same length. -/
theorem replaceRow_eq_ok (M : DenseMatrix ℚ n) {i : ℕ} {entries : List ℚ}
    (h : entries.length = n) (hi : i < M.height) :
    M.replaceRow i entries = .ok (M.overwriteRow i entries h) := by
  have hrequire := (requireRow_eq_ok_iff M i).2 hi
  unfold replaceRow
  simp only [hrequire, bind, Except.bind, dif_pos h]
  rfl

/-- Another row changes its own entries only. -/
theorem entry_overwriteRow (M : DenseMatrix ℚ n) {i : ℕ} (entries : List ℚ)
    (h : entries.length = n) (hi : i < M.height) (k j : ℕ) :
    (M.overwriteRow i entries h).entry k j =
      if k = i then Row.entry entries j else M.entry k j := by
  have hi' : i < M.rows.length := hi
  unfold entry row overwriteRow
  dsimp only
  rw [List.getElem?_set]
  by_cases hki : k = i
  · rw [if_pos hki.symm, if_pos hki, if_pos hi']
    rfl
  · rw [if_neg (Ne.symm hki), if_neg hki]

end DenseMatrix

namespace Tableau

variable {T R : Tableau ℚ} {M : Model ℚ} {o : Objective ℚ}

/-- `R` holds the columns of `T` before `M`'s width, and the objective row of `M`. -/
structure RestoredFrom (T : Tableau ℚ) (M : Model ℚ) (o : Objective ℚ) (R : Tableau ℚ) : Prop where
  /-- The columns are the variables of the model. -/
  model : R.model = M
  /-- The tolerance is the same. -/
  tolerance : R.tolerance = T.tolerance
  /-- There are as many rows. -/
  height : R.matrix.height = T.matrix.height
  /-- The constraint rows are the same where there are columns left. -/
  entry_of_ne : ∀ i ≠ 0, ∀ j < M.vars.length, R.entry i j = T.entry i j
  /-- The right-hand sides of the constraint rows are the same. -/
  rhs_of_ne : ∀ i ≠ 0, R.rhs i = T.rhs i
  /-- The first row holds the negated coefficients of the objective. -/
  entry_zero : ∀ j < M.vars.length, R.entry 0 j = -o.expression.coefficientAt j
  /-- The objective value is zero. -/
  rhs_zero : R.rhs 0 = 0

/-- The columns are the variables of the model. -/
theorem RestoredFrom.columns (h : T.RestoredFrom M o R) : R.columns = M.vars.length :=
  columns_eq_of_model_eq h.model

/-- A row that is zero stays zero. -/
theorem RestoredFrom.entry_eq_zero (h : T.RestoredFrom M o R) {i : ℕ} (hi : i ≠ 0)
    (hzero : ∀ j, T.entry i j = 0) (j : ℕ) : R.entry i j = 0 := by
  rcases lt_trichotomy j M.vars.length with hlt | heq | hgt
  · rw [h.entry_of_ne i hi j hlt, hzero]
  · have hrhs := h.rhs_of_ne i hi
    unfold Tableau.rhs at hrhs
    rw [hzero, h.columns] at hrhs
    rw [heq]
    exact hrhs
  · exact R.entry_eq_zero_of_columns_lt i (by rw [h.columns]; exact hgt)

/-- The solutions are those of `T` that vanish on the columns dropped. -/
theorem RestoredFrom.solves_iff (h : T.RestoredFrom M o R) (hle : M.vars.length ≤ T.columns)
    {y : ℕ → ℚ} (hy : ∀ j, M.vars.length ≤ j → j < T.columns → y j = 0) :
    R.Solves y ↔ T.Solves y := by
  refine forall₂_congr fun i hi => ?_
  have hvalue : R.rowValue i y = T.rowValue i y := by
    have hback : ∀ j, M.vars.length ≤ j → j < T.columns → T.entry i j * y j = 0 := by
      intro j hge hlt
      rw [hy j hge hlt, mul_zero]
    unfold rowValue
    rw [h.columns, sum_range_eq_sum_range hle hback]
    refine Finset.sum_congr rfl fun j hj => ?_
    rw [h.entry_of_ne i hi j (Finset.mem_range.1 hj)]
  rw [hvalue, h.rhs_of_ne i hi]

/-- The artificial columns can be dropped and the objective row put in. -/
theorem exists_restoredFrom (hM : M.Scoped) (ho : M.objective = some o)
    (hmax : M.vars.length ≤ Expression.maxDenseLength) (hle : M.vars.length ≤ T.columns)
    (hheight : 0 < T.matrix.height) {dropped : List ℕ}
    (hdropped : dropped = List.range' M.vars.length (T.columns - M.vars.length)) :
    ∃ R, (do
      let remaining ← T.matrix.removeColumns dropped
      let objective ← M.objectiveRow
      let matrix ← remaining.replaceRow 0 objective
      Tableau.ofMatrix M matrix T.tolerance) = .ok R ∧ T.RestoredFrom M o R := by
  have hkept : DenseMatrix.keptColumns (T.columns + 1) dropped =
      List.range M.vars.length ++ [T.columns] := by
    rw [hdropped]
    exact DenseMatrix.keptColumns_range' hle
  have hwidth : (DenseMatrix.keptColumns (T.columns + 1) dropped).length = M.vars.length + 1 := by
    simp [hkept]
  -- Each of the steps succeeds: the columns exist, the objective can be written as a row of the
  -- width that is left, and there is a row to replace.
  have hin : ∀ j ∈ dropped, j < T.model.vars.length + 1 := by
    intro j hj
    rw [hdropped, List.mem_range'_1] at hj
    have hcolumns : T.columns = T.model.vars.length := rfl
    omega
  let objective := ((List.range M.vars.length).map fun j => -o.expression.coefficientAt j) ++
    [(0 : ℚ)]
  have hobjective : M.objectiveRow = .ok objective :=
    Model.objectiveRow_eq_ok ho (hM.objective o ho) hmax
  have hlength : objective.length =
      (DenseMatrix.keptColumns (T.model.vars.length + 1) dropped).length := by
    rw [show (DenseMatrix.keptColumns (T.model.vars.length + 1) dropped).length =
      M.vars.length + 1 from hwidth]
    simp [objective]
  have hrow : 0 < (T.matrix.dropColumns dropped).height := by
    rw [DenseMatrix.height_dropColumns]
    exact hheight
  have hremove := T.matrix.removeColumns_eq_ok hin
  have hreplace := (T.matrix.dropColumns dropped).replaceRow_eq_ok hlength hrow
  let R : Tableau ℚ := ⟨M, T.tolerance,
    ((T.matrix.dropColumns dropped).overwriteRow 0 objective hlength).castWidth hwidth⟩
  -- Row 0 is the new one, and the others have the columns that are left.
  have hentry : ∀ i j, R.entry i j = if i = 0 then Row.entry objective j else
      Row.entry ((List.range M.vars.length).map (T.entry i) ++ [T.rhs i]) j := by
    intro i j
    show ((T.matrix.dropColumns dropped).overwriteRow 0 objective hlength).entry i j = _
    rw [DenseMatrix.entry_overwriteRow _ _ _ hrow, DenseMatrix.entry_dropColumns,
      show DenseMatrix.keptColumns (T.model.vars.length + 1) dropped =
        List.range M.vars.length ++ [T.columns] from hkept, List.map_append]
    rfl
  have hfirst := Model.entry_map_range_append (fun j => -o.expression.coefficientAt j)
    M.vars.length 0
  refine ⟨R, ?_, rfl, rfl, ?_, fun i hi j hj => ?_, fun i hi => ?_, fun j hj => ?_, ?_⟩
  · simp only [hremove, hobjective, hreplace, bind, Except.bind]
    exact dif_pos hwidth
  · calc R.matrix.height
        = ((T.matrix.dropColumns dropped).overwriteRow 0 objective hlength).height := rfl
      _ = (T.matrix.dropColumns dropped).height := DenseMatrix.height_overwriteRow _ _ _ _
      _ = T.matrix.height := T.matrix.height_dropColumns dropped
  · rw [hentry, if_neg hi]
    exact (Model.entry_map_range_append (T.entry i) _ _).1 j hj
  · show R.entry i M.vars.length = _
    rw [hentry, if_neg hi]
    exact (Model.entry_map_range_append (T.entry i) _ _).2
  · rw [hentry, if_pos rfl]
    exact hfirst.1 j hj
  · show R.entry 0 M.vars.length = _
    rw [hentry, if_pos rfl]
    exact hfirst.2

/-- Pricing out row by row is pricing out at the places. -/
theorem foldlM_priceOut_basis (T R : Tableau ℚ) :
    ((T.constraintRows.zip T.basis).foldlM (fun R (row, column?) =>
      match column? with
      | some column => R.priceOut row column
      | none => pure R) R) =
      T.basicPlaces.foldlM (fun R p => R.priceOut p.1 p.2) R := by
  rw [constraintRows_zip_basis]
  unfold basicPlaces
  induction T.constraintRows generalizing R with
  | nil => rfl
  | cons row rows ih =>
    cases hc : T.basicColumn row with
    | none =>
      rw [List.filterMap_cons_none (by rw [hc]; rfl), ← ih, List.map_cons, List.foldlM_cons, hc]
      rfl
    | some c =>
      rw [List.filterMap_cons_some (by rw [hc]; rfl), List.map_cons, List.foldlM_cons,
        List.foldlM_cons, hc]
      exact congrArg _ (funext fun R => ih R)

/-- `restore` puts the first tableau together and prices the basic columns out. -/
theorem restore_eq_bind (T : Tableau ℚ) (tolerance : ℚ) (M : Model ℚ)
    (artificials : List Artificial) :
    T.restore tolerance M artificials = (do
      let restored ← (do
        let remaining ← T.matrix.removeColumns (artificials.map (·.column))
        let objective ← M.objectiveRow
        let matrix ← remaining.replaceRow 0 objective
        Tableau.ofMatrix M matrix tolerance)
      T.basicPlaces.foldlM (fun R p => R.priceOut p.1 p.2) restored) := by
  unfold restore
  -- The computations are the same, with the binds nested to the right on one side.
  rw [bind_assoc]
  refine bind_congr fun remaining => ?_
  rw [bind_assoc]
  refine bind_congr fun objective => ?_
  rw [bind_assoc]
  refine bind_congr fun matrix => ?_
  exact bind_congr fun restored => foldlM_priceOut_basis T restored

/-- The places of the basic columns are in constraint rows. -/
theorem row_ne_zero_of_mem_basicPlaces {p : ℕ × ℕ} (hp : p ∈ T.basicPlaces) : p.1 ≠ 0 :=
  ((T.mem_constraintRows p.1).1 ((T.mem_basicPlaces_iff p).1 hp).1).1

/-- A restored tableau has the new objective row, with the basic columns priced out. -/
theorem exists_restoredFrom_of_restore (hM : M.Scoped) (ho : M.objective = some o)
    (hmax : M.vars.length ≤ Expression.maxDenseLength) (hle : M.vars.length ≤ T.columns)
    (hheight : 0 < T.matrix.height) {artificials : List Artificial}
    (hartificials : artificials.map (·.column) =
      List.range' M.vars.length (T.columns - M.vars.length))
    (h : T.restore T.tolerance M artificials = .ok R) :
    ∃ S : Tableau ℚ, T.RestoredFrom M o S ∧
      T.basicPlaces.foldlM (fun R p => R.priceOut p.1 p.2) S = .ok R := by
  obtain ⟨S, hS, hrestored⟩ := exists_restoredFrom hM ho hmax hle hheight hartificials
  rw [restore_eq_bind, hS] at h
  exact ⟨S, hrestored, h⟩

/-- When the basic columns are columns that are left, `restore` puts the new objective row in and
prices them out. -/
theorem exists_restore (hM : M.Scoped) (ho : M.objective = some o)
    (hmax : M.vars.length ≤ Expression.maxDenseLength) (hle : M.vars.length ≤ T.columns)
    (hheight : 0 < T.matrix.height)
    (hbefore : ∀ i ∈ T.constraintRows, ∀ c, T.basicColumn i = some c → c < M.vars.length)
    {artificials : List Artificial}
    (hartificials : artificials.map (·.column) =
      List.range' M.vars.length (T.columns - M.vars.length)) :
    ∃ S R : Tableau ℚ, T.restore T.tolerance M artificials = .ok R ∧ T.RestoredFrom M o S ∧
      T.basicPlaces.foldlM (fun R p => R.priceOut p.1 p.2) S = .ok R ∧
      S.Repriced T.basicPlaces R := by
  obtain ⟨S, hS, hrestored⟩ := exists_restoredFrom hM ho hmax hle hheight hartificials
  have hplaces : ∀ p ∈ T.basicPlaces, p.1 ≠ 0 ∧ p.1 < S.matrix.height ∧ p.2 ≤ S.columns := by
    intro p hp
    obtain ⟨hrow, hc⟩ := (T.mem_basicPlaces_iff p).1 hp
    obtain ⟨hne, hlt⟩ := (T.mem_constraintRows p.1).1 hrow
    have hcolumn := hbefore _ hrow _ hc
    exact ⟨hne, by rw [hrestored.height]; exact hlt, by rw [hrestored.columns]; exact hcolumn.le⟩
  obtain ⟨R, hR, hrepriced⟩ := exists_foldlM_priceOut_eq_ok hplaces
  refine ⟨S, R, ?_, hrestored, hR, hrepriced⟩
  rw [restore_eq_bind, hS]
  exact hR

/-! ## With a basis that can be read off -/

/-- A basic column that is left becomes basic again, when it is a unit vector. -/
theorem RestoredFrom.becomesBasic (h : T.RestoredFrom M o R) {i c : ℕ}
    (hc : T.basicColumn i = some c) (hunit : T.UnitIn i c) (hlt : c < M.vars.length) :
    R.BecomesBasic T.basicPlaces i c := by
  have hplace : (i, c) ∈ T.basicPlaces :=
    (T.mem_basicPlaces_iff _).2 ⟨hunit.mem_constraintRows, hc⟩
  refine ⟨by rw [h.columns]; exact hlt, hunit.row_ne_zero, fun k hk => ?_, fun p hp => ?_,
    Or.inr ⟨_, hplace, rfl⟩⟩
  · rw [h.entry_of_ne k hk c hlt]
    split
    · rename_i hki
      rw [hki, hunit.entry_eq_one]
    · rename_i hki
      exact hunit.entry_eq_zero k hk hki
  · obtain ⟨hrow, hpc⟩ := (T.mem_basicPlaces_iff p).1 hp
    by_cases hpi : p.1 = i
    · rw [hpi, hc] at hpc
      exact Or.inl (Option.some.inj hpc).symm
    · exact Or.inr ⟨hpi, ((T.mem_constraintRows p.1).1 hrow).1⟩

/-- With a basis that can be read off a basic column has a one in its row, so pricing the basic
columns out keeps the equations and the objective. -/
theorem RestoredFrom.priced {S : Tableau ℚ} (h : T.RestoredFrom M o S) (hT : T.ReadsBasis)
    (hbefore : ∀ i c, T.basicColumn i = some c → c < M.vars.length)
    (hpriced : T.basicPlaces.foldlM (fun R p => R.priceOut p.1 p.2) S = .ok R) :
    S.Priced T.basicPlaces R := by
  refine ⟨repriced_of_eq_ok (fun p hp => row_ne_zero_of_mem_basicPlaces hp) hpriced,
    equivalent_of_foldlM_priceOut (fun p hp => ?_) hpriced⟩
  have hne := row_ne_zero_of_mem_basicPlaces hp
  have hc := ((T.mem_basicPlaces_iff p).1 hp).2
  have hbecomes := h.becomesBasic hc (hT.unitIn _ _ hc) (hbefore _ _ hc)
  exact ⟨hne, by rw [hbecomes.entry_of_ne _ hne, if_pos rfl]⟩

/-- With a basis that can be read off, pricing out leaves each row zero or with a basic column. -/
theorem RestoredFrom.zeroOrBasic {S : Tableau ℚ} (h : T.RestoredFrom M o S) (hT : T.ReadsBasis)
    (hbefore : ∀ i c, T.basicColumn i = some c → c < M.vars.length)
    (hpriced : S.Priced T.basicPlaces R) : R.ZeroOrBasic := by
  refine hpriced.zeroOrBasic fun i hi => ?_
  rcases hT.zero_or_basicColumn i hi with hzero | ⟨c, hc⟩
  · exact Or.inl (h.entry_eq_zero hi hzero)
  · exact Or.inr ⟨c, h.becomesBasic hc (hT.unitIn i c hc) (hbefore i c hc)⟩

/-- Pricing out keeps the solutions, which are those that vanish on the columns dropped. -/
theorem RestoredFrom.solves_repriced_iff {S : Tableau ℚ} (h : T.RestoredFrom M o S)
    (hle : M.vars.length ≤ T.columns) (hpriced : S.Repriced T.basicPlaces R) {y : ℕ → ℚ}
    (hy : ∀ j, M.vars.length ≤ j → j < T.columns → y j = 0) : R.Solves y ↔ T.Solves y := by
  rw [hpriced.solves_iff, h.solves_iff hle hy]

/-- Pricing out keeps the objective, which is that of the model. -/
theorem RestoredFrom.objectiveAt_eq {S : Tableau ℚ} (h : T.RestoredFrom M o S)
    (hpriced : S.Priced T.basicPlaces R) {y : ℕ → ℚ} (hy : R.Solves y) :
    R.objectiveAt y = o.expression.linear M.vars.length y := by
  rw [hpriced.equivalent.objectiveAt_eq ((hpriced.equivalent.solves_iff y).1 hy),
    objectiveAt_eq_linear h.columns h.entry_zero h.rhs_zero]

end Tableau

end LinProg
