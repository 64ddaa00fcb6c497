import LinProg.Proofs.Canonical

/-!
# Pivots and pricing as row operations

A pivot, and pricing out by a row with a one in the column, add multiples of one row to the others,
and a pivot multiplies this row by a number that is not zero (`Reduced`). The rows afterwards are
the rows before, combined by an invertible matrix (`RowEquivalent`), and they state the same linear
program (`Restates`): its equations have the same solutions, and its objective row has the same
value at each of them.

That the equations stay the same through any number of pivots makes a tableau a function of its
basis: two sequences of pivots that lead to the same unit columns lead to the same tableau
(`eq_of_legalPivots`). -/

namespace LinProg.Tableau

variable {T U V : Tableau ℚ}

/-! ## Invertible combinations of rows -/

/-- The rows of `U` are the rows of `T`, combined by an invertible matrix. -/
def RowEquivalent (T U : Tableau ℚ) : Prop :=
  ∃ P : Matrix (Fin T.matrix.height) (Fin T.matrix.height) ℚ, IsUnit P ∧
    ∀ (i : Fin T.matrix.height) (j : ℕ), U.entry i j = ∑ k, P i k * T.entry k j

/-- `U` is `T` with the multiple `weight row` of a row in its place, and with the multiple
`weight i` of it added to every other row `i`. -/
def Reduced (T : Tableau ℚ) (row : ℕ) (weight : ℕ → ℚ) (U : Tableau ℚ) : Prop :=
  ∀ i < T.matrix.height, ∀ j,
    U.entry i j = (if i = row then 0 else T.entry i j) + weight i * T.entry row j

/-- Multiples of a row can be added when the row itself does not vanish. -/
theorem Reduced.rowEquivalent {row : ℕ} {weight : ℕ → ℚ} (h : Reduced T row weight U)
    (hrow : row < T.matrix.height) (hweight : weight row ≠ 0) : RowEquivalent T U := by
  -- The identity with the weights in the column of the row. Its determinant is `weight row`.
  let r : Fin T.matrix.height := ⟨row, hrow⟩
  let P := (1 : Matrix (Fin T.matrix.height) (Fin T.matrix.height) ℚ).updateCol r fun i => weight i
  have hdet : P.det = weight row := by
    rw [← Matrix.cramer_apply, Matrix.cramer_one]
    rfl
  refine ⟨P, ?_, fun i j => ?_⟩
  · rw [Matrix.isUnit_iff_isUnit_det, hdet]
    exact isUnit_iff_ne_zero.2 hweight
  · have hterm : ∀ k, P i k * T.entry k j =
        (if k = i then (if i = r then 0 else T.entry k j) else 0) +
          if k = r then weight i * T.entry k j else 0 := by
      intro k
      simp only [P, Matrix.updateCol_apply, Matrix.one_apply]
      by_cases hkr : k = r
      · by_cases hki : k = i
        · rw [if_pos hkr, if_pos hki, if_pos (hki.symm.trans hkr), if_pos hkr, zero_add]
        · rw [if_pos hkr, if_neg hki, if_pos hkr, zero_add]
      · by_cases hki : k = i
        · rw [if_neg hkr, if_pos hki.symm, if_pos hki, if_neg (hki ▸ hkr), if_neg hkr, one_mul,
            add_zero]
        · rw [if_neg hkr, if_neg (Ne.symm hki), if_neg hki, if_neg hkr, zero_mul, add_zero]
    rw [h i i.isLt j, Finset.sum_congr rfl fun k _ => hterm k, Finset.sum_add_distrib,
      Finset.sum_ite_eq', Finset.sum_ite_eq', if_pos (Finset.mem_univ _),
      if_pos (Finset.mem_univ _)]
    simp only [Fin.ext_iff, r]

/-- A pivot combines the rows by an invertible matrix. -/
theorem PivotOf.rowEquivalent {row column : ℕ} (h : PivotOf T row column U) :
    RowEquivalent T U := by
  have hreduced : Reduced T row (fun i => if i = row then 1 / T.entry row column
      else -(T.entry i column / T.entry row column)) U := by
    intro i _ j
    rw [h.entry]
    by_cases hi : i = row
    · simp only [if_pos hi]
      ring
    · simp only [if_neg hi]
      ring
  refine hreduced.rowEquivalent h.row_lt ?_
  rw [if_pos rfl]
  exact one_div_ne_zero h.entry_ne_zero

/-- Pricing out by a row with a one in the column combines the rows by an invertible matrix. -/
theorem PriceOf.rowEquivalent {row column : ℕ} (h : PriceOf T row column U) (hrow : row ≠ 0)
    (hlt : row < T.matrix.height) (hone : T.entry row column = 1) : RowEquivalent T U := by
  have hreduced : Reduced T row (fun i => if i = row then 1
      else if i = 0 then -T.entry 0 column else 0) U := by
    intro i _ j
    by_cases hi0 : i = 0
    · rw [hi0, h.entry_zero]
      simp only [if_neg hrow.symm, if_true]
      split
      · rename_i hj
        rw [hj, hone]
        ring
      · ring
    · rw [h.entry_of_ne i hi0]
      by_cases hir : i = row
      · simp only [hir, if_true]
        ring
      · simp only [if_neg hir, if_neg hi0]
        ring
  refine hreduced.rowEquivalent hlt ?_
  rw [if_pos rfl]
  exact one_ne_zero

/-! ## The same linear program -/

/-- `U` states the linear program of `T` in other rows. -/
structure Restates (T U : Tableau ℚ) : Prop where
  /-- The columns are the same variables. -/
  model : U.model = T.model
  /-- The tolerance is the same. -/
  tolerance : U.tolerance = T.tolerance
  /-- There are as many rows. -/
  height : U.matrix.height = T.matrix.height
  /-- The rows are combined by an invertible matrix. -/
  rows : RowEquivalent T U
  /-- The equations of the constraint rows are met at the same points. -/
  solves_iff : ∀ x, U.Solves x ↔ T.Solves x
  /-- At these points the objective row exceeds its right-hand side by as much. -/
  objective_eq : ∀ x, T.Solves x → U.rowValue 0 x - U.rhs 0 = T.rowValue 0 x - T.rhs 0

/-- Equivalent tableaux whose rows are combined by an invertible matrix state the same program. -/
theorem Equivalent.restates (h : Equivalent T U) (hmodel : U.model = T.model)
    (htolerance : U.tolerance = T.tolerance) (hrows : RowEquivalent T U) : Restates T U := by
  refine ⟨hmodel, htolerance, h.height, hrows, h.solves_iff, fun x hx => ?_⟩
  have hvalue := h.objectiveAt_eq hx
  unfold objectiveAt at hvalue
  linarith

/-- A pivot in a constraint row states the same program. -/
theorem PivotOf.restates {row column : ℕ} (h : PivotOf T row column U) (hrow : row ≠ 0) :
    Restates T U :=
  (h.equivalent hrow).restates h.model h.tolerance h.rowEquivalent

/-- Pricing out by a constraint row with a one in the column states the same program. -/
theorem PriceOf.restates {row column : ℕ} (h : PriceOf T row column U) (hrow : row ≠ 0)
    (hlt : row < T.matrix.height) (hone : T.entry row column = 1) : Restates T U :=
  (h.equivalent hrow hone).restates h.model h.tolerance (h.rowEquivalent hrow hlt hone)

/-- Pricing out is possible by a constraint row with a one in the column, and a pivot on every entry
of a constraint row that exceeds a tolerance which is not negative. Both state the same program
afterwards and make the objective entry of the column zero. Pricing out changes no constraint row,
and a pivot makes the column the unit vector of the row. -/
theorem rowOperation_restates (T : Tableau ℚ) {row column : ℕ} (hrow : row ∈ T.constraintRows)
    (hcolumn : column < T.columns) :
    (T.entry row column = 1 →
      ∃ U, T.priceOut row column = .ok U ∧ Restates T U ∧ U.entry 0 column = 0 ∧
        ∀ i ≠ 0, ∀ j, U.entry i j = T.entry i j) ∧
    (0 ≤ T.tolerance → T.tolerance < |T.entry row column| →
      ∃ U, T.pivot row column = .ok U ∧ Restates T U ∧ U.entry 0 column = 0 ∧
        ∀ i, U.entry i column = if i = row then 1 else 0) := by
  obtain ⟨hrow0, hlt⟩ := (T.mem_constraintRows row).1 hrow
  constructor
  · intro hone
    obtain ⟨U, hU⟩ := exists_priceOut_eq_ok hlt hcolumn.le (Scalar.isFinite_exact _)
    have hprice := priceOf_of_eq_ok hrow0 hU
    refine ⟨U, hU, hprice.restates hrow0 hlt hone, ?_, hprice.entry_of_ne⟩
    rw [hprice.entry_zero, if_pos rfl]
  · intro htol hsignificant
    obtain ⟨U, hU⟩ := exists_pivot_eq_ok hlt hcolumn.le hsignificant
    have hpivot := pivotOf_of_eq_ok htol hU
    have hbasic := hpivot.basicIn hrow0 hcolumn
    refine ⟨U, hU, hpivot.restates hrow0, hbasic.entry_eq_zero 0 hrow0.symm, fun i => ?_⟩
    split
    · rename_i hi
      rw [hi, hbasic.entry_eq_one]
    · rename_i hi
      exact hbasic.entry_eq_zero i hi

/-- A tableau with rows of three variables and a right-hand side. -/
def ofThreeColumns (rows : List (List ℚ)) (h : ∀ row ∈ rows, row.length = 4) : Tableau ℚ where
  model := ⟨"rows", [⟨0, "x"⟩, ⟨1, "y"⟩, ⟨2, "z"⟩], [], none⟩
  tolerance := 0
  matrix := ⟨rows, h⟩

/-- Beside a zero row, pricing out by a one in the second column and a pivot on a negative entry in
the first. -/
theorem rowOperation_restates_negative :
    let T := ofThreeColumns [[3, -2, 5, 7], [0, 0, 0, 0], [-2, 1, 4, 6], [1, 1, 0, 3]] (by decide)
    (2 ∈ T.constraintRows ∧ 0 < T.columns ∧ 1 < T.columns ∧ T.entry 2 1 = 1 ∧
      0 ≤ T.tolerance ∧ T.tolerance < |T.entry 2 0|) ∧
    (∃ U, T.priceOut 2 1 = .ok U ∧ Restates T U ∧ U.entry 0 1 = 0 ∧
      ∀ i ≠ 0, ∀ j, U.entry i j = T.entry i j) ∧
    ∃ U, T.pivot 2 0 = .ok U ∧ Restates T U ∧ U.entry 0 0 = 0 ∧
      ∀ i, U.entry i 0 = if i = 2 then 1 else 0 := by
  intro T
  have hrow : 2 ∈ T.constraintRows := by decide
  have hone : T.entry 2 1 = 1 := by decide +kernel
  have htol : 0 ≤ T.tolerance := le_rfl
  have hsignificant : T.tolerance < |T.entry 2 0| := by decide +kernel
  exact ⟨⟨hrow, by decide, by decide, hone, htol, hsignificant⟩,
    (rowOperation_restates T hrow (by decide : 1 < T.columns)).1 hone,
    (rowOperation_restates T hrow (by decide : 0 < T.columns)).2 htol hsignificant⟩

/-! ## Sequences of pivots -/

/-- Pivots at the given places, one after the other, lead from `T` to `U`. Each is in a constraint
row, on an entry that is not zero. -/
inductive LegalPivots : Tableau ℚ → List (ℕ × ℕ) → Tableau ℚ → Prop
  /-- Without pivots the tableau stays. -/
  | nil {T : Tableau ℚ} : LegalPivots T [] T
  /-- A pivot, and then the others. -/
  | cons {T V U : Tableau ℚ} {row column : ℕ} {places : List (ℕ × ℕ)}
      (hrow : row ∈ T.constraintRows) (hentry : T.entry row column ≠ 0)
      (hpivot : T.pivot row column = .ok V) (hrest : LegalPivots V places U) :
      LegalPivots T ((row, column) :: places) U

/-- A sequence of pivots keeps the model and the tolerance, the equations and the objective. -/
theorem LegalPivots.equivalent {places : List (ℕ × ℕ)} (h : LegalPivots T places U) :
    U.model = T.model ∧ U.tolerance = T.tolerance ∧ Equivalent T U := by
  induction h with
  | nil => exact ⟨rfl, rfl, .refl _⟩
  | @cons T V U row column places hrow hentry hpivot hrest ih =>
    obtain ⟨hmodel, htolerance, hequivalent⟩ := ih
    have hstep := pivotOf_of_ne_zero hentry hpivot
    have hrow0 := ((T.mem_constraintRows row).1 hrow).1
    exact ⟨hmodel.trans hstep.model, htolerance.trans hstep.tolerance,
      (hstep.equivalent hrow0).trans hequivalent⟩

/-- A tableau is determined by its basis. Whatever two sequences of pivots lead from one tableau to
two in which the same column is the unit vector of each constraint row, with a zero in the objective
row, these two are equal. -/
theorem eq_of_legalPivots {placesU placesV : List (ℕ × ℕ)} (hU : LegalPivots T placesU U)
    (hV : LegalPivots T placesV V) (column : ℕ → ℕ)
    (hbasic : ∀ i ∈ T.constraintRows, U.BasicIn i (column i) ∧ V.BasicIn i (column i)) :
    U = V := by
  obtain ⟨hmodelU, htoleranceU, hequivalentU⟩ := hU.equivalent
  obtain ⟨hmodelV, htoleranceV, hequivalentV⟩ := hV.equivalent
  have hequivalent : Equivalent V U := hequivalentV.symm.trans hequivalentU
  refine eq_of_entry_eq (hmodelU.trans hmodelV.symm) (htoleranceU.trans htoleranceV.symm)
    hequivalent.height (hequivalent.entry_eq column fun i hi => Or.inr ?_)
  -- The three tableaux have the same constraint rows.
  have hiT : i ∈ T.constraintRows := by
    rw [mem_constraintRows] at hi ⊢
    rwa [← hequivalentV.height]
  exact (hbasic i hiT).symm

/-- A pivot of a tableau of rows, by the rows that it computes. -/
theorem pivot_ofThreeColumns {rows after : List (List ℚ)} {h : ∀ row ∈ rows, row.length = 4}
    {hafter : ∀ row ∈ after, row.length = 4} {row column : ℕ}
    (hrows : ((ofThreeColumns rows h).pivot row column).toOption.map (·.matrix.rows) = some after) :
    (ofThreeColumns rows h).pivot row column = .ok (ofThreeColumns after hafter) := by
  cases hpivot : (ofThreeColumns rows h).pivot row column with
  | error fault =>
    rw [hpivot] at hrows
    cases hrows
  | ok U =>
    rw [hpivot] at hrows
    have hkept := pivoted_of_eq_ok hpivot
    have heq : U = ofThreeColumns after hafter :=
      eq_of_rows_eq hkept.model hkept.tolerance (Option.some.inj hrows)
    rw [heq]

/-- Two pivots and three other ones make the first column the unit vector of the first constraint
row and the second that of the second. -/
theorem eq_of_legalPivots_detour :
    let T := ofThreeColumns [[3, 1, 2, 0], [1, 2, 1, 4], [1, 1, -1, 1]] (by decide)
    ∃ U V, LegalPivots T [(1, 0), (2, 1)] U ∧ LegalPivots T [(1, 2), (2, 1), (1, 0)] V ∧
      (∀ i ∈ T.constraintRows, U.BasicIn i (i - 1) ∧ V.BasicIn i (i - 1)) ∧ U = V := by
  intro T
  let last := ofThreeColumns [[0, 0, 9, 3], [1, 0, -3, -2], [0, 1, 2, 3]] (by decide)
  let straight := ofThreeColumns [[0, -5, -1, -12], [1, 2, 1, 4], [0, -1, -2, -3]] (by decide)
  let detour := ofThreeColumns [[1, -3, 0, -8], [1, 2, 1, 4], [2, 3, 0, 5]] (by decide)
  let back := ofThreeColumns [[3, 0, 0, -3], [-1 / 3, 0, 1, 2 / 3], [2 / 3, 1, 0, 5 / 3]]
    (by decide)
  have hU : LegalPivots T [(1, 0), (2, 1)] last :=
    .cons (V := straight) (by decide) (by decide +kernel) (pivot_ofThreeColumns (by decide +kernel))
      (.cons (by decide) (by decide +kernel) (pivot_ofThreeColumns (by decide +kernel)) .nil)
  have hV : LegalPivots T [(1, 2), (2, 1), (1, 0)] last :=
    .cons (V := detour) (by decide) (by decide +kernel) (pivot_ofThreeColumns (by decide +kernel))
      (.cons (V := back) (by decide) (by decide +kernel) (pivot_ofThreeColumns (by decide +kernel))
        (.cons (by decide) (by decide +kernel) (pivot_ofThreeColumns (by decide +kernel)) .nil))
  have hunit : ∀ i ∈ T.constraintRows, i - 1 < last.columns ∧ i ≠ 0 ∧ last.entry i (i - 1) = 1 ∧
      ∀ k < last.matrix.height, k ≠ i → last.entry k (i - 1) = 0 := by
    decide +kernel
  have hbasic : ∀ i ∈ T.constraintRows, last.BasicIn i (i - 1) := by
    intro i hi
    obtain ⟨hcolumn, hi0, hone, hzero⟩ := hunit i hi
    refine ⟨hcolumn, hi0, hone, fun k hk => ?_⟩
    rcases lt_or_ge k last.matrix.height with hlt | hge
    · exact hzero k hlt hk
    · exact last.entry_eq_zero_of_height_le hge _
  have hboth := fun i hi => And.intro (hbasic i hi) (hbasic i hi)
  exact ⟨last, last, hU, hV, hboth, eq_of_legalPivots hU hV (· - 1) hboth⟩

end LinProg.Tableau
