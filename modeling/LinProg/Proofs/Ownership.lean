import LinProg.Proofs.BasisScan
import LinProg.Proofs.ExactUnits

/-!
# Rows that own a column

A constraint row owns a column that is exactly its unit vector, with a zero in the objective row
(`Tableau.Owns`). Over arithmetic that is exact about zero and one no pivot loses this, however it
rounds the other entries: the pivot row comes to own the pivot column (`Pivoted.owns_self`), and the
other rows keep the columns they own, since a row without an entry in a column changes nothing there
(`Pivoted.owns`). The scan for a basis accepts every column that is owned (`Owns.basicRow`), so a
tableau in which each constraint row owns one has a basic column in each row
(`none_notMem_basis`). -/

namespace LinProg.Tableau

open Scalar (IsZero ExactUnits)

variable {α : Type} [Scalar α] {T U : Tableau α} {row column : ℕ}

/-- The column is exactly the unit vector of the constraint row, its objective entry included. -/
structure Owns (T : Tableau α) (row column : ℕ) : Prop where
  /-- The column is one of the variables. -/
  lt_columns : column < T.columns
  /-- The row is a constraint row. -/
  row_ne_zero : row ≠ 0
  /-- The entry in the row is one. -/
  entry_eq_one : T.entry row column = 1
  /-- All other entries are zeros, that of the objective row included. -/
  isZero_entry : ∀ k ≠ row, IsZero (T.entry k column)

/-- Over exact numbers a row owns the columns that are basic in it. -/
theorem owns_iff_basicIn {T : Tableau ℚ} : T.Owns row column ↔ T.BasicIn row column :=
  ⟨fun h => ⟨h.lt_columns, h.row_ne_zero, h.entry_eq_one,
      fun k hk => (Scalar.isZero_exact _).1 (h.isZero_entry k hk)⟩,
    fun h => ⟨h.lt_columns, h.row_ne_zero, h.entry_eq_one,
      fun k hk => (Scalar.isZero_exact _).2 (h.entry_eq_zero k hk)⟩⟩

/-! ## Pivots -/

section Pivots

variable [ExactUnits α]

/-- After a pivot the row owns the column. -/
theorem Pivoted.owns_self (h : T.Pivoted row column U) (hrow : row ≠ 0)
    (hcolumn : column < T.columns) : U.Owns row column := by
  have hcolumns : U.columns = T.columns := columns_eq_of_model_eq h.model
  refine ⟨by rw [hcolumns]; exact hcolumn, hrow, h.entry_self, fun k hk => ?_⟩
  rw [h.entry_column k hk]
  exact ExactUnits.isZero_zero

/-- A pivot in another row keeps a column that is owned. -/
theorem Pivoted.owns (h : T.Pivoted row column U) (htol : 0 ≤ T.tolerance) {i c : ℕ}
    (hi : i ≠ row) (howns : T.Owns i c) : U.Owns i c := by
  have hcolumns : U.columns = T.columns := columns_eq_of_model_eq h.model
  have hc : c ≤ T.columns := howns.lt_columns.le
  -- The pivot column has an entry in the row, and the column that is owned has none.
  have hzero : IsZero (T.entry row c) := howns.isZero_entry row hi.symm
  have hne : c ≠ column := by
    rintro rfl
    have hsignificant := h.significant
    rw [Scalar.isSignificant_eq_false_of_isZero htol hzero] at hsignificant
    exact Bool.false_ne_true hsignificant
  have hscaled : IsZero (T.entry row c * (1 / T.entry row column)) :=
    ExactUnits.isZero_mul_right hzero h.isFinite_factor
  have hproduct : ∀ k < T.matrix.height, k ≠ row →
      IsZero (T.entry k column * (T.entry row c * (1 / T.entry row column))) :=
    fun k hk hkr => ExactUnits.isZero_mul (h.isFinite_entry k hk hkr) hscaled
  refine ⟨by rw [hcolumns]; exact howns.lt_columns, howns.row_ne_zero, ?_, fun k hk => ?_⟩
  · rcases lt_or_ge i T.matrix.height with hlt | hge
    · rw [h.entry_of_ne i hlt hi c hc hne]
      split
      · exact howns.entry_eq_one
      · rw [howns.entry_eq_one]
        exact ExactUnits.one_sub (hproduct i hlt hi)
    · rw [U.entry_eq_zero_of_height_le (by rw [h.height]; exact hge),
        ← T.entry_eq_zero_of_height_le hge c]
      exact howns.entry_eq_one
  · by_cases hkr : k = row
    · rw [hkr, h.entry_row c hc hne]
      exact hscaled
    rcases lt_or_ge k T.matrix.height with hlt | hge
    · rw [h.entry_of_ne k hlt hkr c hc hne]
      split
      · exact howns.isZero_entry k hk
      · exact ExactUnits.isZero_sub (howns.isZero_entry k hk) (hproduct k hlt hkr)
    · rw [U.entry_eq_zero_of_height_le (by rw [h.height]; exact hge)]
      exact ExactUnits.isZero_zero

/-- When each constraint row owns a column, each does after a pivot in a constraint row. -/
theorem Pivoted.exists_owns (h : T.Pivoted row column U) (htol : 0 ≤ T.tolerance)
    (hrow : row ≠ 0) (hcolumn : column < T.columns)
    (howns : ∀ i ∈ T.constraintRows, ∃ c, T.Owns i c) :
    ∀ i ∈ U.constraintRows, ∃ c, U.Owns i c := by
  intro i hi
  by_cases hir : i = row
  · rw [hir]
    exact ⟨column, h.owns_self hrow hcolumn⟩
  · rw [mem_constraintRows, h.height, ← mem_constraintRows] at hi
    obtain ⟨c, hc⟩ := howns i hi
    exact ⟨c, h.owns htol hir hc⟩

end Pivots

/-! ## The scan -/

section Scan

variable [ExactUnits α] {tolerance : α}

/-- After the unit was met, zeros change nothing. -/
theorem scanUnit_some_of_forall_isZero (htol : 0 ≤ tolerance) (found row : ℕ) {xs : List α}
    (h : ∀ x ∈ xs, IsZero x) : scanUnit tolerance (some found) row xs = some found := by
  induction xs generalizing row with
  | nil => rfl
  | cons x xs ih =>
    have hx : Scalar.isSignificant tolerance x = false :=
      Scalar.isSignificant_eq_false_of_isZero htol (h x (by simp))
    simp only [scanUnit, Option.isNone_some, Bool.false_and, hx, Bool.false_eq_true, if_false]
    exact ih (row + 1) fun y hy => h y (by simp [hy])

/-- The scan finds a one among zeros. -/
theorem scanUnit_none_of_forall_isZero (htol : 0 ≤ tolerance) (hlt : tolerance < 1) (row : ℕ)
    {before after : List α} (hbefore : ∀ x ∈ before, IsZero x) (hafter : ∀ x ∈ after, IsZero x) :
    scanUnit tolerance none row (before ++ 1 :: after) = some (row + before.length) := by
  induction before generalizing row with
  | nil =>
    have hone : Scalar.isNegligible tolerance (1 - 1 : α) = true :=
      Scalar.isNegligible_one_sub_one htol
    simp only [List.nil_append, scanUnit, Option.isNone_none, hone, Bool.and_self, if_true]
    exact scanUnit_some_of_forall_isZero htol row (row + 1) hafter
  | cons x before ih =>
    have hx : IsZero x := hbefore x (by simp)
    -- A zero is neither near one nor significant.
    have hone := Scalar.isNegligible_sub_one_eq_false hlt hx
    have hzero := Scalar.isSignificant_eq_false_of_isZero htol hx
    simp only [List.cons_append, scanUnit, Option.isNone_none, hone, hzero, Bool.and_false,
      Bool.false_eq_true, if_false]
    rw [ih (row + 1) fun y hy => hbefore y (by simp [hy]), List.length_cons]
    congr 1
    omega

/-- The scan for a basis takes a column that is owned for basic. -/
theorem Owns.basicRow (htol : 0 ≤ T.tolerance) (hlt : T.tolerance < 1)
    (hrow : row ∈ T.constraintRows) (h : T.Owns row column) : T.basicRow column = some row := by
  obtain ⟨hne, hheight⟩ := (T.mem_constraintRows row).1 hrow
  -- The constraint rows are those above the row, the row itself, and those below it.
  have hrows : T.constraintRows =
      List.range' 1 (row - 1) ++ row :: List.range' (row + 1) (T.matrix.height - 1 - row) := by
    have hsplit := List.range'_append_1 (s := 1) (m := row - 1) (n := T.matrix.height - row)
    have hfront : 1 + (row - 1) = row := by omega
    have hback : T.matrix.height - row = T.matrix.height - 1 - row + 1 := by omega
    rw [hfront, hback, List.range'_succ] at hsplit
    rw [hsplit]
    unfold constraintRows
    congr 1
    omega
  have hzero : ∀ rows : List ℕ, row ∉ rows → ∀ x ∈ rows.map (T.entry · column), IsZero x := by
    intro rows hnot x hx
    obtain ⟨k, hk, rfl⟩ := List.mem_map.1 hx
    exact h.isZero_entry k fun hkr => hnot (hkr ▸ hk)
  have hscan := scanUnit_none_of_forall_isZero htol hlt 1
    (hzero (List.range' 1 (row - 1)) (by rw [List.mem_range'_1]; omega))
    (hzero (List.range' (row + 1) (T.matrix.height - 1 - row)) (by rw [List.mem_range'_1]; omega))
  have hobjective : Scalar.isSignificant T.tolerance (T.entry 0 column) = false :=
    Scalar.isSignificant_eq_false_of_isZero htol (h.isZero_entry 0 hne.symm)
  unfold Tableau.basicRow
  rw [if_neg (by rw [hobjective]; exact Bool.false_ne_true)]
  unfold unitRow
  rw [hrows, List.map_append, List.map_cons, h.entry_eq_one, hscan]
  simp only [List.length_map, List.length_range']
  congr 1
  omega

/-- A row that owns a column has a basic column. -/
theorem Owns.exists_basicColumn (htol : 0 ≤ T.tolerance) (hlt : T.tolerance < 1)
    (hrow : row ∈ T.constraintRows) (h : T.Owns row column) : ∃ c, T.basicColumn row = some c := by
  cases hc : T.basicColumn row with
  | some c => exact ⟨c, rfl⟩
  | none =>
    have hnone := List.find?_eq_none.1 hc column (List.mem_range.2 h.lt_columns)
    rw [h.basicRow htol hlt hrow] at hnone
    exact absurd (beq_self_eq_true _) hnone

/-- When each constraint row owns a column, the basis has a column for each. -/
theorem none_notMem_basis (htol : 0 ≤ T.tolerance) (hlt : T.tolerance < 1)
    (h : ∀ row ∈ T.constraintRows, ∃ column, T.Owns row column) : none ∉ T.basis := by
  rw [basis_eq_map, List.mem_map]
  rintro ⟨row, hrow, hnone⟩
  obtain ⟨column, howns⟩ := h row hrow
  obtain ⟨c, hc⟩ := howns.exists_basicColumn htol hlt hrow
  rw [hc] at hnone
  exact absurd hnone nofun

end Scan

end LinProg.Tableau
