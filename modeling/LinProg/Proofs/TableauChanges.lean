import LinProg.Tableau
import LinProg.Proofs.ExactScalar

/-!
# What a change does to the entries

The entries of a tableau after a pivot and after pricing out, in any arithmetic: `Pivoted` and
`PricedOut` say what is multiplied and subtracted, what is written without a computation, and which
factors the checks of the two have found to be finite. `pivoted_of_eq_ok` and
`pricedOut_of_eq_ok` read them off an operation that was possible. No law of the arithmetic is
used, so what follows from these holds however the results are rounded. The entries and the shape
make up the tableau, apart from its model and its tolerance (`eq_of_entry_eq`). -/

namespace LinProg

variable {α : Type} [Scalar α]

namespace DenseMatrix

variable {n : ℕ}

/-- There are zeros below the last row. -/
theorem entry_of_height_le (M : DenseMatrix α n) {i : ℕ} (hi : M.height ≤ i) (j : ℕ) :
    M.entry i j = 0 := by
  unfold entry row
  rw [List.getElem?_eq_none hi]
  rfl

/-- There are zeros right of the last column. -/
theorem entry_of_width_le (M : DenseMatrix α n) (i : ℕ) {j : ℕ} (hj : n ≤ j) :
    M.entry i j = 0 := by
  rcases lt_or_ge i M.height with hi | hi
  · exact Row.entry_of_length_le (by rw [M.length_row_of_lt hi]; exact hj)
  · exact M.entry_of_height_le hi j

/-- Matrices of one shape with the same entries have the same rows. -/
theorem rows_eq_of_entry_eq {M : DenseMatrix α n} {k : ℕ} {N : DenseMatrix α k} (hwidth : n = k)
    (hheight : M.height = N.height) (hentry : ∀ i j, M.entry i j = N.entry i j) :
    M.rows = N.rows := by
  refine List.ext_getElem hheight fun i hiM hiN => List.ext_getElem ?_ fun j hjM hjN => ?_
  · rw [M.length_row _ (List.getElem_mem _), N.length_row _ (List.getElem_mem _), hwidth]
  · have := hentry i j
    unfold entry row at this
    rwa [List.getElem?_eq_getElem hiM, List.getElem?_eq_getElem hiN, Option.getD_some,
      Option.getD_some, Row.entry_of_lt hjM, Row.entry_of_lt hjN] at this

/-- A row operation subtracts a finite multiple of another row from its target, unless the factor
is zero. -/
theorem entry_of_rowOperation_eq_ok {M N : DenseMatrix α n} {target source : ℕ} {factor : α}
    (hne : source ≠ target) (h : M.rowOperation target source factor = .ok N) :
    Scalar.isFinite factor = true ∧ N.height = M.height ∧
      (∀ i ≠ target, ∀ j, N.entry i j = M.entry i j) ∧
      ∀ j < n, N.entry target j =
        if factor == 0 then M.entry target j
        else M.entry target j - factor * M.entry source j := by
  have hr : (target == source) = false := by simpa using hne.symm
  unfold rowOperation at h
  by_cases hf : Scalar.isFinite factor = true
  case neg => simp [hf, bind, Except.bind, throw, throwThe, MonadExceptOf.throw] at h
  refine ⟨hf, ?_⟩
  by_cases hb : (factor == 0) = true
  · simp only [hf, hb, pure, Except.pure, bind, Except.bind, Bool.true_or, if_true,
      Except.ok.injEq] at h
    subst h
    exact ⟨rfl, fun _ _ _ => rfl, fun j _ => by rw [if_pos hb]⟩
  · -- Otherwise both rows exist, as the operation was not refused.
    by_cases hs : source < M.height
    case neg => simp [hf, hb, hr, requireRow, hs, bind, Except.bind] at h
    by_cases ht : target < M.height
    case neg => simp [hf, hb, hr, requireRow, hs, ht, bind, Except.bind] at h
    simp [hf, hb, hr, requireRow, hs, ht, bind, Except.bind, pure, Except.pure] at h
    subst h
    refine ⟨by simp, fun i hi j => ?_, fun j hj => ?_⟩
    · rcases lt_or_ge i M.height with hlt | hge
      · rcases lt_or_ge j n with hj | hj
        · rw [entry_eliminateRow _ _ hs hlt hj, if_neg (fun h => hi h.1)]
        · rw [entry_of_width_le _ _ hj, entry_of_width_le _ _ hj]
      · rw [entry_of_height_le _ (by simpa using hge), entry_of_height_le _ hge]
    · rw [entry_eliminateRow _ _ hs ht hj, if_pos ⟨rfl, hne.symm⟩]

/-- A row operation with a finite factor is possible between rows that exist. -/
theorem exists_rowOperation_eq_ok {M : DenseMatrix α n} {target source : ℕ}
    (ht : target < M.height) (hs : source < M.height) {factor : α}
    (hf : Scalar.isFinite factor = true) :
    ∃ N, M.rowOperation target source factor = .ok N ∧ N.height = M.height := by
  unfold rowOperation requireRow
  by_cases hb : ((factor == 0) || (target == source)) = true
  · exact ⟨M, by simp [hf, hb, pure, Except.pure], rfl⟩
  · exact ⟨M.eliminateRow target source factor,
      by simp [hf, hb, hs, ht, bind, Except.bind, pure, Except.pure], by simp⟩

end DenseMatrix

namespace Tableau

variable {T U : Tableau α}

/-- Outside the matrix the entries are zero. -/
theorem entry_eq_zero_of_height_le (T : Tableau α) {i : ℕ} (hi : T.matrix.height ≤ i) (j : ℕ) :
    T.entry i j = 0 :=
  T.matrix.entry_of_height_le hi j

/-- Outside the matrix the entries are zero. -/
theorem entry_eq_zero_of_columns_lt (T : Tableau α) (i : ℕ) {j : ℕ} (hj : T.columns < j) :
    T.entry i j = 0 :=
  T.matrix.entry_of_width_le i hj

omit [Scalar α] in
/-- The columns are the variables of the model. -/
theorem columns_eq_of_model_eq {T : Tableau α} {M : Model α} (h : T.model = M) :
    T.columns = M.vars.length := by
  rw [← h]
  rfl

omit [Scalar α] in
/-- Tableaux of one model and one tolerance with the same rows are the same. -/
theorem eq_of_rows_eq (hmodel : U.model = T.model) (htolerance : U.tolerance = T.tolerance)
    (hrows : U.matrix.rows = T.matrix.rows) : U = T := by
  obtain ⟨modelT, toleranceT, rowsT, lengthT⟩ := T
  obtain ⟨modelU, toleranceU, rowsU, lengthU⟩ := U
  cases hmodel
  cases htolerance
  cases hrows
  rfl

/-- Tableaux of one model and one tolerance with as many rows and the same entries are the same. -/
theorem eq_of_entry_eq (hmodel : U.model = T.model) (htolerance : U.tolerance = T.tolerance)
    (hheight : U.matrix.height = T.matrix.height) (hentry : ∀ i j, U.entry i j = T.entry i j) :
    U = T :=
  eq_of_rows_eq hmodel htolerance
    (DenseMatrix.rows_eq_of_entry_eq (by rw [hmodel]) hheight hentry)

/-- `U` is `T` after a pivot, as the arithmetic computes it. -/
structure Pivoted (T : Tableau α) (row column : ℕ) (U : Tableau α) : Prop where
  /-- The columns are the same variables. -/
  model : U.model = T.model
  /-- The tolerance is the same. -/
  tolerance : U.tolerance = T.tolerance
  /-- There are as many rows. -/
  height : U.matrix.height = T.matrix.height
  /-- The row exists. -/
  row_lt : row < T.matrix.height
  /-- The column exists. -/
  column_le : column ≤ T.columns
  /-- The entry is taken for different from zero. -/
  significant : Scalar.isSignificant T.tolerance (T.entry row column) = true
  /-- The factor of the row is finite. -/
  isFinite_factor : Scalar.isFinite (1 / T.entry row column) = true
  /-- The factors of the other rows are finite. -/
  isFinite_entry : ∀ i < T.matrix.height, i ≠ row → Scalar.isFinite (T.entry i column) = true
  /-- The place of the pivot is written as one. -/
  entry_self : U.entry row column = 1
  /-- The other entries of the row are multiplied by the reciprocal. -/
  entry_row : ∀ j ≤ T.columns, j ≠ column →
    U.entry row j = T.entry row j * (1 / T.entry row column)
  /-- The other places of the column are written as zero. -/
  entry_column : ∀ i ≠ row, U.entry i column = 0
  /-- The other rows are reduced by the row, unless their factor is zero. -/
  entry_of_ne : ∀ i < T.matrix.height, i ≠ row → ∀ j ≤ T.columns, j ≠ column →
    U.entry i j =
      if T.entry i column == 0 then T.entry i j
      else T.entry i j - T.entry i column * (T.entry row j * (1 / T.entry row column))

/-- A pivot that is possible does what a pivot does. -/
theorem pivoted_of_eq_ok {row column : ℕ} (h : T.pivot row column = .ok U) :
    Pivoted T row column U := by
  unfold pivot at h
  obtain ⟨N, hM, h⟩ := (bind_eq_ok_iff _ _ _).1 h
  cases h
  obtain ⟨⟨hrow, hcolumn⟩, hsig, hfactor, hfinite, hN⟩ :=
    (DenseMatrix.pivot_eq_ok_iff _ _ _ _ _).1 hM
  have hheight : N.height = T.matrix.height := by simp [hN]
  -- Inside the matrix the three changes are read off in turn.
  have hentry : ∀ i < T.matrix.height, ∀ j ≤ T.columns, N.entry i j =
      if i = row then if j = column then 1 else T.entry row j * (1 / T.entry row column)
      else if j = column then 0
      else if T.entry i column == 0 then T.entry i j
      else T.entry i j - T.entry i column * (T.entry row j * (1 / T.entry row column)) := by
    intro i hi j hj
    have hj' : j < T.model.vars.length + 1 := Nat.lt_succ_of_le hj
    rw [hN, DenseMatrix.entry_eliminateColumn _ (by simpa using hrow) hcolumn
        (by simpa using hi) hj',
      DenseMatrix.entry_updateEntry _ hcolumn _ (by simpa using hi),
      DenseMatrix.entry_updateEntry _ hcolumn _ (by simpa using hi),
      DenseMatrix.entry_updateEntry _ hcolumn _ (by simpa using hrow),
      DenseMatrix.entry_multiplyRow _ _ _ hi hj', DenseMatrix.entry_multiplyRow _ _ _ hi hcolumn,
      DenseMatrix.entry_multiplyRow _ _ _ hrow hj']
    by_cases hir : i = row
    · subst hir
      by_cases hjc : j = column
      · simp [hjc]
      · simp [hjc, entry]
    · by_cases hjc : j = column
      · simp [hir, hjc]
      · simp only [hir, hjc, if_false, and_false, if_true, and_true]
        rfl
  refine
    { model := rfl
      tolerance := rfl
      height := hheight
      row_lt := hrow
      column_le := Nat.le_of_lt_succ hcolumn
      significant := hsig
      isFinite_factor := hfactor
      isFinite_entry := fun i hi hne => (hfinite i hi).resolve_left hne
      entry_self := ?_
      entry_row := fun j hj hne => ?_
      entry_column := fun i hne => ?_
      entry_of_ne := fun i hi hne j hj hjc => ?_ }
  · exact (hentry row hrow column (Nat.le_of_lt_succ hcolumn)).trans (by simp)
  · exact (hentry row hrow j hj).trans (by simp [hne])
  · rcases lt_or_ge i T.matrix.height with hi | hi
    · exact (hentry i hi column (Nat.le_of_lt_succ hcolumn)).trans (by simp [hne])
    · exact N.entry_of_height_le (by rw [hheight]; exact hi) column
  · exact (hentry i hi j hj).trans (by simp [hne, hjc])

/-- `U` is `T` after `column` was priced out by `row`, as the arithmetic computes it. -/
structure PricedOut (T : Tableau α) (row column : ℕ) (U : Tableau α) : Prop where
  /-- The columns are the same variables. -/
  model : U.model = T.model
  /-- The tolerance is the same. -/
  tolerance : U.tolerance = T.tolerance
  /-- There are as many rows. -/
  height : U.matrix.height = T.matrix.height
  /-- The factor is finite. -/
  isFinite_factor : Scalar.isFinite (T.entry 0 column) = true
  /-- The constraint rows are the same. -/
  entry_of_ne : ∀ i ≠ 0, ∀ j, U.entry i j = T.entry i j
  /-- The objective entry of the column is written as zero. -/
  entry_self : U.entry 0 column = 0
  /-- The objective row is reduced by the row, unless the factor is zero. -/
  entry_zero : ∀ j ≤ T.columns, j ≠ column →
    U.entry 0 j =
      if T.entry 0 column == 0 then T.entry 0 j
      else T.entry 0 j - T.entry 0 column * T.entry row j

/-- Pricing out that is possible does what pricing out does. -/
theorem pricedOut_of_eq_ok {row column : ℕ} (hrow : row ≠ 0) (h : T.priceOut row column = .ok U) :
    PricedOut T row column U := by
  unfold priceOut at h
  obtain ⟨factor, hread, h⟩ := (bind_eq_ok_iff _ _ _).1 h
  obtain ⟨⟨hpos, hcolumn⟩, rfl⟩ := (DenseMatrix.read_eq_ok_iff _ _ _ _).1 hread
  obtain ⟨N, hop, h⟩ := (bind_eq_ok_iff _ _ _).1 h
  obtain ⟨R, hset, h⟩ := (bind_eq_ok_iff _ _ _).1 h
  cases h
  obtain ⟨-, rfl⟩ := (DenseMatrix.set_eq_ok_iff _ _ _ _ _).1 hset
  obtain ⟨hfinite, hheight, hother, hzero⟩ := DenseMatrix.entry_of_rowOperation_eq_ok hrow hop
  -- The entry of the column is written as zero over what the row operation left there.
  have hupdate : ∀ i j, (N.updateEntry 0 column 0).entry i j =
      if i = 0 ∧ j = column then 0 else N.entry i j := by
    intro i j
    rcases lt_or_ge i N.height with hi | hi
    · exact DenseMatrix.entry_updateEntry _ hcolumn _ hi j
    · rw [DenseMatrix.entry_of_height_le _ (by simpa using hi), N.entry_of_height_le hi]
      simp
  refine
    { model := rfl
      tolerance := rfl
      height := by simp [hheight]
      isFinite_factor := hfinite
      entry_of_ne := fun i hi j => ?_
      entry_self := (hupdate 0 column).trans (by simp)
      entry_zero := fun j hj hne => ?_ }
  · exact (hupdate i j).trans (by rw [if_neg (fun h => hi h.1)]; exact hother i hi j)
  · exact (hupdate 0 j).trans (by
      rw [if_neg (fun h => hne h.2)]
      exact hzero j (Nat.lt_succ_of_le hj))

/-- Pricing out is possible in every place of the matrix where the factor is finite. -/
theorem exists_priceOut_eq_ok {row column : ℕ} (hrow : row < T.matrix.height)
    (hcolumn : column ≤ T.columns) (hfinite : Scalar.isFinite (T.entry 0 column) = true) :
    ∃ U, T.priceOut row column = .ok U := by
  have hpos : 0 < T.matrix.height := by omega
  have hread := (DenseMatrix.read_eq_ok_iff T.matrix 0 column _).2
    ⟨⟨hpos, Nat.lt_succ_of_le hcolumn⟩, rfl⟩
  obtain ⟨N, hN, hheight⟩ := DenseMatrix.exists_rowOperation_eq_ok hpos hrow hfinite
  have hset := (DenseMatrix.set_eq_ok_iff N _ 0 column 0).2
    ⟨⟨by rw [hheight]; exact hpos, Nat.lt_succ_of_le hcolumn⟩, rfl⟩
  have hop : T.matrix.rowOperation 0 row (T.matrix.entry 0 column) = .ok N := hN
  unfold priceOut
  simp only [hread, hop, hset, bind, Except.bind, pure, Except.pure]
  exact ⟨_, rfl⟩

/-- `U` is `T` with a row cleared. -/
structure Cleared (T : Tableau α) (row : ℕ) (U : Tableau α) : Prop where
  /-- The columns are the same variables. -/
  model : U.model = T.model
  /-- The tolerance is the same. -/
  tolerance : U.tolerance = T.tolerance
  /-- There are as many rows. -/
  height : U.matrix.height = T.matrix.height
  /-- The row is zero, and the others are the same. -/
  entry : ∀ i j, U.entry i j = if i = row then 0 else T.entry i j

/-- A row that exists can be cleared. -/
theorem exists_clearRow_eq_ok {row : ℕ} (hrow : row < T.matrix.height) :
    ∃ U, T.clearRow row = .ok U ∧ T.Cleared row U := by
  have hheight : (T.matrix.flattenRow row 0).height = T.matrix.height := by
    simp [DenseMatrix.flattenRow]
  refine ⟨{ T with matrix := T.matrix.flattenRow row 0 }, ?_, rfl, rfl, hheight, fun i j => ?_⟩
  · simp [clearRow, DenseMatrix.fillRow, DenseMatrix.requireRow, hrow, bind, Except.bind, pure,
      Except.pure]
  · change (T.matrix.flattenRow row 0).entry i j = _
    rcases lt_or_ge i T.matrix.height with hi | hi
    · unfold DenseMatrix.flattenRow
      rw [DenseMatrix.entry_mapRows _ _ _ hi]
      by_cases hir : i = row
      · rw [if_pos hir, if_pos hir]
        rcases lt_or_ge j (T.matrix.row i).length with hj | hj
        · rw [Row.entry_map _ hj]
        · exact Row.entry_of_length_le (by simpa using hj)
      · rw [if_neg hir, if_neg hir]
        rfl
    · rw [DenseMatrix.entry_of_height_le _ (by rw [hheight]; exact hi),
        T.entry_eq_zero_of_height_le hi]
      simp

/-- What is left when a row could be cleared is the tableau without it. -/
theorem cleared_of_eq_ok {row : ℕ} (h : T.clearRow row = .ok U) : T.Cleared row U := by
  have hrow : row < T.matrix.height := by
    obtain ⟨N, hN, -⟩ := (bind_eq_ok_iff _ _ _).1 h
    obtain ⟨u, hrequire, -⟩ := (bind_eq_ok_iff _ _ _).1 hN
    exact (DenseMatrix.requireRow_eq_ok_iff _ row).1 hrequire
  obtain ⟨V, hV, hclear⟩ := exists_clearRow_eq_ok hrow
  rw [h] at hV
  cases hV
  exact hclear

end Tableau

end LinProg
