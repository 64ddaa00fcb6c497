import LinProg.Proofs.Canonical

/-!
# The ratio test

What the choice of the leaving row does to the right-hand sides. Dantzig's rule takes a row of the
least ratio, so a pivot there leaves the rows that took part in the test without negative right-hand
sides. Bland's rule takes a row whose ratio may exceed the least by the tolerance (`leeway`). The
tolerance is on ratios: another row falls below zero by no more than the tolerance times its own
entry (`leavingRow_keeps_rhs`), and it does fall below the negated tolerance where that entry is
large (`leavingRow_bland_overshoots`). -/

namespace LinProg.Tableau

variable {T U : Tableau ℚ}

/-- By how much the ratio of the leaving row may exceed the least. -/
def leeway (T : Tableau ℚ) : PivotRule → ℚ
  | .dantzig => 0
  | .bland => T.tolerance

/-- No candidate has a ratio that is less than that of the leaving row by more than the leeway. -/
theorem ratio_le_of_leavingRow (htol : 0 ≤ T.tolerance) {column row : ℕ} {rule : PivotRule}
    (h : T.leavingRow column rule = some row) {i : ℕ} (hi : i ∈ T.constraintRows)
    (hpos : T.tolerance < T.entry i column) :
    T.rhs row / T.entry row column ≤ T.rhs i / T.entry i column + T.leeway rule := by
  cases rule with
  | bland => exact (leavingRow_eq_some htol h).2.2 i hi hpos
  | dantzig =>
    rcases firstLeast_spec (T.ratios column) with ⟨-, hnone⟩ | ⟨before, p, after, hlist, hsome,
      hbefore, hafter⟩
    · exact absurd (h.symm.trans hnone) nofun
    have hp : p ∈ T.ratios column := by
      rw [hlist]
      exact List.mem_append_right _ List.mem_cons_self
    have hleast : ∀ q ∈ T.ratios column, p.2 ≤ q.2 := by
      intro q hq
      rw [hlist, List.mem_append, List.mem_cons] at hq
      rcases hq with hq | rfl | hq
      · exact (hbefore q hq).le
      · exact le_rfl
      · exact hafter q hq
    obtain rfl : p.1 = row := Option.some.inj (hsome.symm.trans h)
    rw [← ((T.mem_ratios_iff column p).1 hp).2.2]
    exact (hleast _ ((T.mem_ratios_iff column (i, _)).2 ⟨hi, hpos, rfl⟩)).trans_eq
      (add_zero _).symm

/-- From right-hand sides that are not negative, the pivot on the leaving row is possible, and it
leaves every candidate row with a right-hand side that is negative by no more than the leeway times
the entry of the row. Under Dantzig's rule it is not negative. -/
theorem leavingRow_keeps_rhs (T : Tableau ℚ) (htol : 0 ≤ T.tolerance)
    (hrhs : ∀ i ∈ T.constraintRows, 0 ≤ T.rhs i) {column row : ℕ} {rule : PivotRule}
    (h : T.leavingRow column rule = some row) :
    ∃ U, T.pivot row column = .ok U ∧
      ∀ i ∈ T.constraintRows, T.tolerance < T.entry i column →
        -(T.leeway rule * T.entry i column) ≤ U.rhs i := by
  obtain ⟨hrow, hlt, -⟩ := leavingRow_eq_some htol h
  have hpos : 0 < T.entry row column := htol.trans_lt hlt
  obtain ⟨U, hU⟩ : ∃ U, T.pivot row column = .ok U := by
    refine exists_pivot_eq_ok (lt_height_of_entry_ne_zero hpos.ne') ?_ ?_
    · by_contra hcolumn
      exact hpos.ne' (T.entry_eq_zero_of_columns_lt row (not_le.1 hcolumn))
    · rwa [abs_of_pos hpos]
  have hpivot := pivotOf_of_eq_ok htol hU
  have hleeway : 0 ≤ T.leeway rule := by
    cases rule with
    | dantzig => exact le_rfl
    | bland => exact htol
  refine ⟨U, hU, fun i hi hentry => ?_⟩
  have hentry_pos : 0 < T.entry i column := htol.trans_lt hentry
  by_cases hir : i = row
  · -- The leaving row itself ends with its ratio.
    subst hir
    rw [hpivot.rhs, if_pos rfl]
    have hratio := div_nonneg (hrhs i hi) hpos.le
    have hslack := mul_nonneg hleeway hpos.le
    linarith
  · rw [hpivot.rhs, if_neg hir]
    have hratio := mul_le_mul_of_nonneg_left (ratio_le_of_leavingRow htol h hi hentry)
      hentry_pos.le
    have hexpand : T.entry i column * (T.rhs i / T.entry i column + T.leeway rule) =
        T.rhs i + T.leeway rule * T.entry i column := by
      rw [mul_add, mul_div_cancel₀ _ hentry_pos.ne', mul_comm (T.leeway rule)]
    linarith

/-- A tableau with two candidate rows for its first column: ratio 1/2 with the entry 1, and ratio 0
with the entry 4. The second row ties within the tolerance. -/
def tiedTableau : Tableau ℚ where
  model := ⟨"tied", [⟨0, "x"⟩, ⟨1, "y"⟩, ⟨2, "z"⟩], [], none⟩
  tolerance := 1 / 2
  matrix := ⟨[[-1, 0, 0, 0], [1, 1, 0, 1 / 2], [4, 0, 1, 0]], by decide⟩

/-- In the tied tableau the row of the lower basic column leaves under Bland's rule, and the other
one loses no more than the tolerance times its entry. -/
theorem leavingRow_keeps_rhs_tied :
    0 ≤ tiedTableau.tolerance ∧ (∀ i ∈ tiedTableau.constraintRows, 0 ≤ tiedTableau.rhs i) ∧
    tiedTableau.leavingRow 0 .bland = some 1 ∧
    ∃ U, tiedTableau.pivot 1 0 = .ok U ∧
      ∀ i ∈ tiedTableau.constraintRows, tiedTableau.tolerance < tiedTableau.entry i 0 →
        -(tiedTableau.leeway .bland * tiedTableau.entry i 0) ≤ U.rhs i := by
  have htol : 0 ≤ tiedTableau.tolerance := by decide +kernel
  have hrhs : ∀ i ∈ tiedTableau.constraintRows, 0 ≤ tiedTableau.rhs i := by decide +kernel
  have hleaving : tiedTableau.leavingRow 0 .bland = some 1 := by decide +kernel
  exact ⟨htol, hrhs, hleaving, leavingRow_keeps_rhs tiedTableau htol hrhs hleaving⟩

/-- The other row of the tied tableau falls to -2, which is below the negated tolerance. -/
theorem leavingRow_bland_overshoots :
    0 ≤ tiedTableau.tolerance ∧ (∀ i ∈ tiedTableau.constraintRows, 0 ≤ tiedTableau.rhs i) ∧
    tiedTableau.leavingRow 0 .bland = some 1 ∧
    2 ∈ tiedTableau.constraintRows ∧ tiedTableau.tolerance < tiedTableau.entry 2 0 ∧
    ∃ U, tiedTableau.pivot 1 0 = .ok U ∧ U.rhs 2 = -2 ∧ U.rhs 2 < -tiedTableau.tolerance := by
  have hpivot : (match tiedTableau.pivot 1 0 with
      | .ok U => decide (U.rhs 2 = -2 ∧ U.rhs 2 < -tiedTableau.tolerance)
      | .error _ => false) = true := by
    decide +kernel
  refine ⟨by decide +kernel, by decide +kernel, by decide +kernel, by decide +kernel,
    by decide +kernel, ?_⟩
  split at hpivot
  · rename_i U hU
    exact ⟨U, hU, of_decide_eq_true hpivot⟩
  · exact absurd hpivot Bool.false_ne_true

end LinProg.Tableau
