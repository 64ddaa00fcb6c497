import LinProg.Proofs.TableauChanges

/-!
# Tableaux up to row operations

A tableau over exact numbers as a system of linear equations. `Tableau.Solves` says that a point
meets every constraint row, and `Tableau.objectiveAt` is the objective value that the objective row
gives for it.

`PivotOf` is all that a pivot does: it divides a row and subtracts multiples of the result from the
others. A pivot has an inverse of the same kind, so it keeps the solutions, and the objective values
of the solutions. `Equivalent` is that relation between two tableaux, stated for vectors with one
more entry, at the place of the right-hand sides: the entry `-1` gives the points (`point`), and the
entry `0` the directions between them. -/

namespace LinProg

namespace Tableau

variable {T U V : Tableau ℚ}

/-! ## The entries after a change -/

/-- `U` is `T` after the pivot that makes `column` basic in `row`. -/
structure PivotOf (T : Tableau ℚ) (row column : ℕ) (U : Tableau ℚ) : Prop where
  /-- The columns are the same variables. -/
  model : U.model = T.model
  /-- The tolerance is the same. -/
  tolerance : U.tolerance = T.tolerance
  /-- There are as many rows. -/
  height : U.matrix.height = T.matrix.height
  /-- The row exists. -/
  row_lt : row < T.matrix.height
  /-- The entry is not zero. -/
  entry_ne_zero : T.entry row column ≠ 0
  /-- The row is divided, and the others are reduced by the divided row. -/
  entry : ∀ i j, U.entry i j =
    if i = row then T.entry row j / T.entry row column
    else T.entry i j - T.entry i column * (T.entry row j / T.entry row column)

/-- An entry that is not zero stands in a row of the matrix. -/
theorem lt_height_of_entry_ne_zero {i j : ℕ} (h : T.entry i j ≠ 0) : i < T.matrix.height := by
  by_contra hi
  exact h (T.entry_eq_zero_of_height_le (not_lt.1 hi) j)

/-- A pivot that is possible, on an entry that is not zero, does what a pivot does. -/
theorem pivotOf_of_ne_zero {row column : ℕ} (hne : T.entry row column ≠ 0)
    (h : T.pivot row column = .ok U) : PivotOf T row column U := by
  have hpivot := pivoted_of_eq_ok h
  have hcolumns : U.columns = T.columns := columns_eq_of_model_eq hpivot.model
  refine ⟨hpivot.model, hpivot.tolerance, hpivot.height, hpivot.row_lt, hne, fun i j => ?_⟩
  -- Outside the matrix both sides are zero.
  rcases lt_or_ge T.columns j with hj | hj
  · rw [U.entry_eq_zero_of_columns_lt i (by rw [hcolumns]; exact hj),
      T.entry_eq_zero_of_columns_lt row hj, T.entry_eq_zero_of_columns_lt i hj]
    simp
  -- In the pivot row every entry is divided. Elsewhere the pivot column was written as
  -- zero, and the other columns lost their multiple of the divided row.
  by_cases hir : i = row
  · subst hir
    by_cases hjc : j = column
    · subst hjc
      rw [hpivot.entry_self, if_pos rfl, div_self hne]
    · rw [hpivot.entry_row j hj hjc, if_pos rfl, mul_one_div]
  · rw [if_neg hir]
    by_cases hjc : j = column
    · subst hjc
      rw [hpivot.entry_column i hir, div_self hne, mul_one, sub_self]
    · rcases lt_or_ge i T.matrix.height with hi | hi
      · rw [hpivot.entry_of_ne i hi hir j hj hjc, mul_one_div]
        split
        · rename_i hzero
          rw [(Scalar.beq_exact _ _).1 hzero, zero_mul, sub_zero]
        · rfl
      · rw [U.entry_eq_zero_of_height_le (by rw [hpivot.height]; exact hi),
          T.entry_eq_zero_of_height_le hi, T.entry_eq_zero_of_height_le hi]
        simp

/-- Without a negative tolerance only entries that are not zero can be pivoted on. -/
theorem pivotOf_of_eq_ok {row column : ℕ} (htol : 0 ≤ T.tolerance)
    (h : T.pivot row column = .ok U) : PivotOf T row column U :=
  pivotOf_of_ne_zero (abs_pos.1 (lt_of_le_of_lt htol
    ((Scalar.isSignificant_iff _ _).1 (pivoted_of_eq_ok h).significant))) h

/-- A pivot is possible on every entry that exceeds the tolerance. -/
theorem exists_pivot_eq_ok {row column : ℕ} (hrow : row < T.matrix.height)
    (hcolumn : column ≤ T.columns) (h : T.tolerance < |T.entry row column|) :
    ∃ U, T.pivot row column = .ok U := by
  have := (DenseMatrix.pivot_eq_ok_iff T.matrix _ T.tolerance row column).2
    ⟨⟨hrow, Nat.lt_succ_of_le hcolumn⟩, (Scalar.isSignificant_iff _ _).2 h, rfl,
      fun _ _ => Or.inr rfl, rfl⟩
  unfold pivot
  rw [this]
  exact ⟨_, rfl⟩

/-- `U` is `T` with the objective entry of `column` priced out by `row`. -/
structure PriceOf (T : Tableau ℚ) (row column : ℕ) (U : Tableau ℚ) : Prop where
  /-- The columns are the same variables. -/
  model : U.model = T.model
  /-- The tolerance is the same. -/
  tolerance : U.tolerance = T.tolerance
  /-- There are as many rows. -/
  height : U.matrix.height = T.matrix.height
  /-- The constraint rows are the same. -/
  entry_of_ne : ∀ i ≠ 0, ∀ j, U.entry i j = T.entry i j
  /-- The objective row is reduced by the row, and the entry of the column is zero. -/
  entry_zero : ∀ j, U.entry 0 j =
    if j = column then 0 else T.entry 0 j - T.entry 0 column * T.entry row j

/-- Pricing out that is possible does what pricing out does. -/
theorem priceOf_of_eq_ok {row column : ℕ} (hrow : row ≠ 0) (h : T.priceOut row column = .ok U) :
    PriceOf T row column U := by
  have hprice := pricedOut_of_eq_ok hrow h
  have hcolumns : U.columns = T.columns := columns_eq_of_model_eq hprice.model
  refine ⟨hprice.model, hprice.tolerance, hprice.height, hprice.entry_of_ne, fun j => ?_⟩
  by_cases hjc : j = column
  · rw [hjc, hprice.entry_self, if_pos rfl]
  rw [if_neg hjc]
  rcases lt_or_ge T.columns j with hj | hj
  · rw [U.entry_eq_zero_of_columns_lt 0 (by rw [hcolumns]; exact hj),
      T.entry_eq_zero_of_columns_lt row hj, T.entry_eq_zero_of_columns_lt 0 hj]
    simp
  · rw [hprice.entry_zero j hj hjc]
    split
    · rename_i hzero
      rw [(Scalar.beq_exact _ _).1 hzero, zero_mul, sub_zero]
    · rfl

/-! ## Rows as linear forms -/

/-- A row applied to a vector with an entry for each column and one for the right-hand sides. -/
def rowForm (T : Tableau ℚ) (i : ℕ) (y : ℕ → ℚ) : ℚ :=
  ∑ j ∈ Finset.range (T.columns + 1), T.entry i j * y j

/-- Every constraint row is zero at the vector. -/
def Annihilates (T : Tableau ℚ) (y : ℕ → ℚ) : Prop :=
  ∀ i ≠ 0, T.rowForm i y = 0

/-- Two tableaux have the same equations, and the same objective where these are met. -/
structure Equivalent (T U : Tableau ℚ) : Prop where
  /-- There are as many columns. -/
  columns : U.columns = T.columns
  /-- There are as many rows. -/
  height : U.matrix.height = T.matrix.height
  /-- The constraint rows are zero at the same vectors. -/
  annihilates_iff : ∀ y, U.Annihilates y ↔ T.Annihilates y
  /-- The objective rows agree where the constraint rows are zero. -/
  rowForm_zero : ∀ y, T.Annihilates y → U.rowForm 0 y = T.rowForm 0 y

/-- A tableau has the same equations and the same objective as itself. -/
theorem Equivalent.refl (T : Tableau ℚ) : Equivalent T T :=
  ⟨rfl, rfl, fun _ => Iff.rfl, fun _ _ => rfl⟩

/-- To have the same equations and objective is symmetric. -/
theorem Equivalent.symm (h : Equivalent T U) : Equivalent U T :=
  ⟨h.columns.symm, h.height.symm, fun y => (h.annihilates_iff y).symm,
    fun y hy => (h.rowForm_zero y ((h.annihilates_iff y).1 hy)).symm⟩

/-- To have the same equations and objective is transitive. -/
theorem Equivalent.trans (h : Equivalent T U) (k : Equivalent U V) : Equivalent T V :=
  ⟨k.columns.trans h.columns, k.height.trans h.height,
    fun y => (k.annihilates_iff y).trans (h.annihilates_iff y),
    fun y hy => (k.rowForm_zero y ((h.annihilates_iff y).2 hy)).trans (h.rowForm_zero y hy)⟩

/-- A pivot keeps the columns. -/
theorem PivotOf.columns {row column : ℕ} (h : PivotOf T row column U) : U.columns = T.columns :=
  columns_eq_of_model_eq h.model

/-- Pricing out keeps the columns. -/
theorem PriceOf.columns {row column : ℕ} (h : PriceOf T row column U) : U.columns = T.columns :=
  columns_eq_of_model_eq h.model

/-- The rows after a pivot, as linear forms. -/
theorem PivotOf.rowForm {row column : ℕ} (h : PivotOf T row column U) (i : ℕ) (y : ℕ → ℚ) :
    U.rowForm i y =
      if i = row then T.rowForm row y / T.entry row column
      else T.rowForm i y - T.entry i column * (T.rowForm row y / T.entry row column) := by
  unfold Tableau.rowForm
  rw [h.columns]
  split
  · rename_i hi
    rw [Finset.sum_div]
    refine Finset.sum_congr rfl fun j _ => ?_
    rw [h.entry, if_pos hi]
    ring
  · rename_i hi
    rw [Finset.sum_div, Finset.mul_sum, ← Finset.sum_sub_distrib]
    refine Finset.sum_congr rfl fun j _ => ?_
    rw [h.entry, if_neg hi]
    ring

/-- A pivot in a constraint row keeps the equations and the objective. -/
theorem PivotOf.equivalent {row column : ℕ} (h : PivotOf T row column U) (hrow : row ≠ 0) :
    Equivalent T U := by
  -- Where the divided row is zero, the pivot row is.
  have hmp : ∀ y, U.Annihilates y → T.rowForm row y = 0 := by
    intro y hy
    have := hy row hrow
    rw [h.rowForm, if_pos rfl, div_eq_zero_iff] at this
    exact this.resolve_right h.entry_ne_zero
  refine ⟨h.columns, h.height, fun y => ⟨fun hy i hi => ?_, fun hy i hi => ?_⟩, fun y hy => ?_⟩
  · by_cases hir : i = row
    · rw [hir]
      exact hmp y hy
    · have := hy i hi
      rwa [h.rowForm, if_neg hir, hmp y hy, zero_div, mul_zero, sub_zero] at this
  · rw [h.rowForm, hy row hrow, hy i hi]
    simp
  · rw [h.rowForm, if_neg hrow.symm, hy row hrow]
    simp

/-- The objective row after pricing out by a row that has a one in the column. -/
theorem PriceOf.rowForm_zero {row column : ℕ} (h : PriceOf T row column U)
    (hone : T.entry row column = 1) (y : ℕ → ℚ) :
    U.rowForm 0 y = T.rowForm 0 y - T.entry 0 column * T.rowForm row y := by
  unfold rowForm
  rw [h.columns, Finset.mul_sum, ← Finset.sum_sub_distrib]
  refine Finset.sum_congr rfl fun j _ => ?_
  rw [h.entry_zero]
  split
  · rename_i hj
    rw [hj, hone]
    ring
  · ring

/-- Pricing out by a row that has a one in the column keeps the equations and the objective. -/
theorem PriceOf.equivalent {row column : ℕ} (h : PriceOf T row column U) (hrow : row ≠ 0)
    (hone : T.entry row column = 1) : Equivalent T U := by
  have hrows : ∀ i ≠ 0, ∀ y, U.rowForm i y = T.rowForm i y := by
    intro i hi y
    unfold rowForm
    rw [h.columns]
    exact Finset.sum_congr rfl fun j _ => by rw [h.entry_of_ne i hi]
  refine ⟨h.columns, h.height, fun y => forall₂_congr fun i hi => by rw [hrows i hi],
    fun y hy => ?_⟩
  rw [h.rowForm_zero hone, hy row hrow, mul_zero, sub_zero]

/-! ## Points and directions -/

/-- The left-hand side of a row at a point. -/
def rowValue (T : Tableau ℚ) (i : ℕ) (x : ℕ → ℚ) : ℚ :=
  ∑ j ∈ Finset.range T.columns, T.entry i j * x j

/-- The point meets the equation of every constraint row. -/
def Solves (T : Tableau ℚ) (x : ℕ → ℚ) : Prop :=
  ∀ i ≠ 0, T.rowValue i x = T.rhs i

/-- The value that the objective row gives for the objective at a point. -/
def objectiveAt (T : Tableau ℚ) (x : ℕ → ℚ) : ℚ :=
  T.rhs 0 - T.rowValue 0 x

/-- Only the values of the columns matter for the left-hand side of a row. -/
theorem rowValue_congr (T : Tableau ℚ) (i : ℕ) {x y : ℕ → ℚ} (h : ∀ j < T.columns, x j = y j) :
    T.rowValue i x = T.rowValue i y :=
  Finset.sum_congr rfl fun j hj => by rw [h j (Finset.mem_range.1 hj)]

/-- Only the values of the columns matter for the equations. -/
theorem solves_congr (T : Tableau ℚ) {x y : ℕ → ℚ} (h : ∀ j < T.columns, x j = y j) :
    T.Solves x ↔ T.Solves y :=
  forall₂_congr fun i _ => by rw [T.rowValue_congr i h]

/-- A point as a vector with the entry `-1` at the place of the right-hand sides. -/
def point (n : ℕ) (x : ℕ → ℚ) : ℕ → ℚ :=
  fun j => if j = n then -1 else x j

/-- A direction as a vector with the entry `0` at the place of the right-hand sides. -/
def direction (n : ℕ) (d : ℕ → ℚ) : ℕ → ℚ :=
  fun j => if j = n then 0 else d j

/-- A row at a point is the left-hand side less the right-hand side. -/
theorem rowForm_point (T : Tableau ℚ) (i : ℕ) (x : ℕ → ℚ) :
    T.rowForm i (point T.columns x) = T.rowValue i x - T.rhs i := by
  have hsum : ∑ j ∈ Finset.range T.columns, T.entry i j * point T.columns x j = T.rowValue i x := by
    refine Finset.sum_congr rfl fun j hj => ?_
    rw [point, if_neg (by have := Finset.mem_range.1 hj; omega)]
  unfold rowForm
  rw [Finset.sum_range_succ, hsum, point, if_pos rfl, rhs]
  ring

/-- A row at a direction is its left-hand side. -/
theorem rowForm_direction (T : Tableau ℚ) (i : ℕ) (d : ℕ → ℚ) :
    T.rowForm i (direction T.columns d) = T.rowValue i d := by
  unfold rowForm rowValue
  rw [Finset.sum_range_succ, direction, if_pos rfl, mul_zero, add_zero]
  refine Finset.sum_congr rfl fun j hj => ?_
  rw [direction, if_neg (by have := Finset.mem_range.1 hj; omega)]

/-- A point meets the equations when the constraint rows are zero at it. -/
theorem annihilates_point_iff (T : Tableau ℚ) (x : ℕ → ℚ) :
    T.Annihilates (point T.columns x) ↔ T.Solves x := by
  refine forall₂_congr fun i _ => ?_
  rw [rowForm_point, sub_eq_zero]

/-- The equations stay met along a direction when the constraint rows are zero at it. -/
theorem annihilates_direction_iff (T : Tableau ℚ) (d : ℕ → ℚ) :
    T.Annihilates (direction T.columns d) ↔ ∀ i ≠ 0, T.rowValue i d = 0 := by
  refine forall₂_congr fun i _ => ?_
  rw [rowForm_direction]

/-- Equivalent tableaux have the same solutions. -/
theorem Equivalent.solves_iff (h : Equivalent T U) (x : ℕ → ℚ) : U.Solves x ↔ T.Solves x := by
  rw [← annihilates_point_iff, ← annihilates_point_iff, h.columns]
  exact h.annihilates_iff _

/-- Equivalent tableaux agree about the objective at every solution. -/
theorem Equivalent.objectiveAt_eq (h : Equivalent T U) {x : ℕ → ℚ} (hx : T.Solves x) :
    U.objectiveAt x = T.objectiveAt x := by
  have hrow : U.rowValue 0 x - U.rhs 0 = T.rowValue 0 x - T.rhs 0 :=
    calc U.rowValue 0 x - U.rhs 0 = U.rowForm 0 (point U.columns x) := (U.rowForm_point 0 x).symm
      _ = U.rowForm 0 (point T.columns x) := by rw [h.columns]
      _ = T.rowForm 0 (point T.columns x) :=
          h.rowForm_zero _ ((T.annihilates_point_iff x).2 hx)
      _ = T.rowValue 0 x - T.rhs 0 := T.rowForm_point 0 x
  unfold objectiveAt
  linarith

/-- Equivalent tableaux have the same directions along which the equations stay met. -/
theorem Equivalent.rowValue_eq_zero (h : Equivalent T U) {d : ℕ → ℚ}
    (hd : ∀ i ≠ 0, T.rowValue i d = 0) : ∀ i ≠ 0, U.rowValue i d = 0 := by
  rw [← annihilates_direction_iff, h.columns, h.annihilates_iff, annihilates_direction_iff]
  exact hd

/-- Along such a direction equivalent tableaux have the same change of the objective. -/
theorem Equivalent.rowValue_zero_eq (h : Equivalent T U) {d : ℕ → ℚ}
    (hd : ∀ i ≠ 0, T.rowValue i d = 0) : U.rowValue 0 d = T.rowValue 0 d := by
  calc U.rowValue 0 d = U.rowForm 0 (direction U.columns d) := (U.rowForm_direction 0 d).symm
    _ = U.rowForm 0 (direction T.columns d) := by rw [h.columns]
    _ = T.rowForm 0 (direction T.columns d) :=
        h.rowForm_zero _ ((T.annihilates_direction_iff d).2 hd)
    _ = T.rowValue 0 d := T.rowForm_direction 0 d

/-- The left-hand side of a row at a unit vector. -/
theorem rowValue_single (T : Tableau ℚ) (i : ℕ) {a : ℕ} (ha : a < T.columns) :
    T.rowValue i (fun j => if j = a then 1 else 0) = T.entry i a := by
  unfold rowValue
  simp only [mul_ite, mul_one, mul_zero]
  rw [Finset.sum_ite_eq' (Finset.range T.columns) a, if_pos (Finset.mem_range.2 ha)]

/-- The left-hand side of a row at the difference of two unit vectors. -/
theorem rowValue_single_sub (T : Tableau ℚ) (i : ℕ) {a b : ℕ} (ha : a < T.columns)
    (hb : b < T.columns) :
    T.rowValue i (fun j => (if j = a then 1 else 0) - (if j = b then 1 else 0)) =
      T.entry i a - T.entry i b := by
  rw [← T.rowValue_single i ha, ← T.rowValue_single i hb]
  unfold rowValue
  simp only [mul_sub, Finset.sum_sub_distrib]

/-- Two columns that are equal in a tableau are equal in every equivalent one. -/
theorem Equivalent.column_eq (h : Equivalent T U) {a b : ℕ} (ha : a < T.columns)
    (hb : b < T.columns) (hab : ∀ i, T.entry i a = T.entry i b) (i : ℕ) :
    U.entry i a = U.entry i b := by
  -- The difference of the two unit vectors is a direction along which no row changes.
  have hzero : ∀ k, T.rowValue k
      (fun j => (if j = a then 1 else 0) - (if j = b then 1 else 0)) = 0 := by
    intro k
    rw [T.rowValue_single_sub k ha hb, hab k, sub_self]
  have hU : U.rowValue i (fun j => (if j = a then 1 else 0) - (if j = b then 1 else 0)) = 0 := by
    by_cases hi : i = 0
    · rw [hi, h.rowValue_zero_eq fun k _ => hzero k]
      exact hzero 0
    · exact h.rowValue_eq_zero (fun k _ => hzero k) i hi
  rw [U.rowValue_single_sub i (by rw [h.columns]; exact ha) (by rw [h.columns]; exact hb)] at hU
  linarith

end Tableau

end LinProg
