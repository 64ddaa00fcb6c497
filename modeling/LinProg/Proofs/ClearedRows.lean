import LinProg.Proofs.Expunge

/-!
# What clearing a row takes away

A row that is cleared is an equation less, so the solutions after driving out the artificial columns
need not solve the tableau before. But when each row has a unit column of its own, a solution can be
mended: the entry at the column of a cleared row is changed by what the row is missed by there. The
column has an entry beyond the tolerance, so it is an artificial one, and a column of one row is
zero in the others, so they stay as they are. In the end a solution is moved in artificial columns
only, by no more than the rows that are cleared are missed by at the solution itself
(`exists_solves_of_expunge`). -/

namespace LinProg.Tableau

variable {T U V : Tableau ℚ} {first row : ℕ} {own : ℕ → ℕ} {rows : List ℕ} {gap : ℚ} {x y z : ℕ → ℚ}

/-- By how much the row is missed at a point. -/
def missedBy (T : Tableau ℚ) (row : ℕ) (x : ℕ → ℚ) : ℚ :=
  T.rhs row - T.rowValue row x

/-- The points differ only in columns from `first` on that some of the rows own, and by no more than
the gap. -/
structure MovedTo (own : ℕ → ℕ) (first : ℕ) (rows : List ℕ) (gap : ℚ) (x z : ℕ → ℚ) : Prop where
  /-- Where the points differ is a column that one of the rows owns, from `first` on. -/
  exists_own : ∀ j, z j ≠ x j → first ≤ j ∧ ∃ row ∈ rows, own row = j
  /-- The points differ by no more than the gap. -/
  abs_sub_le : ∀ j, |z j - x j| ≤ gap

namespace MovedTo

/-- A point that is not moved. -/
theorem refl (hgap : 0 ≤ gap) (x : ℕ → ℚ) : MovedTo own first rows gap x x :=
  ⟨fun _ hne => absurd rfl hne, fun j => by rw [sub_self, abs_zero]; exact hgap⟩

/-- Columns before `first` stay as they are. -/
theorem eq_of_lt (h : MovedTo own first rows gap x z) {j : ℕ} (hj : j < first) : z j = x j := by
  by_contra hne
  exact absurd (h.exists_own j hne).1 (not_le.2 hj)

/-- A row that has no entry in the columns of the others is not moved. -/
theorem rowValue_eq (h : MovedTo own first rows gap x z)
    (hzero : ∀ i ∈ rows, T.entry row (own i) = 0) : T.rowValue row z = T.rowValue row x := by
  refine Finset.sum_congr rfl fun j _ => ?_
  by_cases hj : z j = x j
  · rw [hj]
  · obtain ⟨-, i, hi, rfl⟩ := h.exists_own j hj
    rw [hzero i hi, zero_mul, zero_mul]

/-- Moving the column of one more row. -/
theorem cons (h : MovedTo own first rows gap x z) (hfirst : first ≤ own row)
    (hown : ∀ i ∈ rows, own i ≠ own row) {step : ℚ} (hstep : |step| ≤ gap) :
    MovedTo own first (row :: rows) gap x fun j => z j + step * if j = own row then 1 else 0 := by
  refine ⟨fun j hne => ?_, fun j => ?_⟩
  · by_cases hj : j = own row
    · exact ⟨hj ▸ hfirst, row, List.mem_cons_self, hj.symm⟩
    · rw [if_neg hj, mul_zero, add_zero] at hne
      obtain ⟨hle, i, hi, hij⟩ := h.exists_own j hne
      exact ⟨hle, i, List.mem_cons_of_mem row hi, hij⟩
  · by_cases hj : j = own row
    · -- The column was not moved before.
      have hsame : z j = x j := by
        by_contra hne
        obtain ⟨-, i, hi, hij⟩ := h.exists_own j hne
        exact hown i hi (hij.trans hj)
      rw [if_pos hj, mul_one, hsame, add_sub_cancel_left]
      exact hstep
    · rw [if_neg hj, mul_zero, add_zero]
      exact h.abs_sub_le j

/-- More rows may be moved. -/
theorem mono (h : MovedTo own first rows gap x z) (row : ℕ) :
    MovedTo own first (row :: rows) gap x z := by
  refine ⟨fun j hne => ?_, h.abs_sub_le⟩
  obtain ⟨hle, i, hi, hij⟩ := h.exists_own j hne
  exact ⟨hle, i, List.mem_cons_of_mem row hi, hij⟩

end MovedTo

/-- A solution after a row is cleared is one before, with what the row is missed by added at a
column that is a unit vector of the row. -/
theorem Cleared.solves_add (h : T.Cleared row V) {c : ℕ} (hunit : T.UnitIn row c)
    (hz : V.Solves z) : T.Solves fun j => z j + T.missedBy row z * if j = c then 1 else 0 := by
  intro i hi
  rw [T.rowValue_add_mul, T.rowValue_single i hunit.lt_columns]
  by_cases hir : i = row
  · rw [hir, hunit.entry_eq_one, mul_one]
    exact add_sub_cancel _ _
  · rw [hunit.entry_eq_zero i hi hir, mul_zero, add_zero, ← h.rowValue_of_ne hir, hz i hi,
      h.rhs_of_ne hir]

/-! ## Going over the rows -/

variable {tolerance : ℚ}

/-- When a solution after a row was gone over is moved in the columns of other rows, a solution
before it is moved in these and that of the row. -/
theorem exists_movedTo_of_expungeRow (htol : T.tolerance = tolerance) (hnonneg : 0 ≤ tolerance)
    (hone : tolerance < 1) (hself : T.UnitIn row (own row)) (hnotMem : row ∉ rows)
    (hunit : ∀ i ∈ rows, T.UnitIn i (own i)) {column? : Option ℕ}
    (hmissed : ∀ p ∈ T.cleared (expungeRow tolerance first T (row, column?)).events,
      |p.1.missedBy p.2 x| ≤ gap)
    (h : (expungeRow tolerance first T (row, column?)).result = .ok V) (hz : V.Solves z)
    (hmoved : MovedTo own first rows gap x z) :
    ∃ w, T.Solves w ∧ MovedTo own first (row :: rows) gap x w := by
  rcases le_or_forall_lt first column? with ⟨c, rfl, hle⟩ | hbefore
  · rw [expungeRow_of_le hle] at h hmissed
    rcases pivotOf_or_cleared_of_driveOut htol hnonneg h with
      ⟨replacement, hpivot⟩ | ⟨hevents, hentries, hclear⟩
    · exact ⟨z, ((hpivot.equivalent hself.row_ne_zero).solves_iff z).1 hz, hmoved.mono row⟩
    · -- The row is missed as it was at the start, and its own column is an artificial one.
      have hmiss : T.missedBy row z = T.missedBy row x := by
        unfold missedBy
        rw [hmoved.rowValue_eq fun i hi => (hunit i hi).entry_eq_zero row hself.row_ne_zero
          (ne_of_mem_of_not_mem hi hnotMem).symm]
      have hgap := hmissed (T, row) (by rw [hevents]; exact List.mem_cons_self)
      have hfirst : first ≤ own row := by
        by_contra hown
        have hentry := hentries (own row) (not_le.1 hown)
        rw [hself.entry_eq_one, abs_one] at hentry
        exact absurd hone (not_lt.2 hentry)
      refine ⟨_, hclear.solves_add hself hz, hmoved.cons hfirst (fun i hi hown => ?_) ?_⟩
      · have hrow := hunit i hi
        rw [hown] at hrow
        exact hnotMem (hrow.row_eq hself ▸ hi)
      · rw [hmiss]
        exact hgap
  · rw [expungeRow_of_lt hbefore] at h
    cases h
    exact ⟨z, hz, hmoved.mono row⟩

/-- A solution after rows were gone over is one before, moved in the columns that these rows own by
no more than the rows that were cleared are missed by. -/
theorem exists_movedTo_of_foldlM_expungeRow (basic : ℕ → Option ℕ)
    (htol : T.tolerance = tolerance) (hnonneg : 0 ≤ tolerance) (hone : tolerance < 1)
    (hfirst : first ≤ T.columns) (hgap : 0 ≤ gap) (hnodup : rows.Nodup)
    (hunit : ∀ row ∈ rows, T.UnitIn row (own row))
    (hmissed : ∀ p ∈ T.cleared ((rows.map fun row => (row, basic row)).foldlM
      (expungeRow tolerance first) T).events, |p.1.missedBy p.2 x| ≤ gap)
    (h : ((rows.map fun row => (row, basic row)).foldlM (expungeRow tolerance first) T).result =
      .ok U) (hx : U.Solves x) :
    ∃ z, T.Solves z ∧ MovedTo own first rows gap x z := by
  induction rows generalizing T with
  | nil =>
    cases h
    exact ⟨x, hx, .refl hgap x⟩
  | cons row rows ih =>
    obtain ⟨hnotMem, hnodup⟩ := List.nodup_cons.1 hnodup
    obtain ⟨hself, hunit⟩ := List.forall_mem_cons.1 hunit
    obtain ⟨-, hlt⟩ := (T.mem_constraintRows row).1 hself.mem_constraintRows
    obtain ⟨V, hV, hstep⟩ := exists_expungeRow htol hnonneg hfirst hlt (basic row)
    rw [List.map_cons, List.foldlM_cons, Recorded.result_bind_of_ok _ hV] at h
    rw [List.map_cons, List.foldlM_cons, Recorded.events_bind_of_ok _ hV, cleared_append,
      foldl_after_expungeRow hV] at hmissed
    -- The rows to come keep their unit columns.
    obtain ⟨htolerance, hcolumns, hkeep⟩ : V.tolerance = T.tolerance ∧ V.columns = T.columns ∧
        ∀ i ∈ rows, V.UnitIn i (own i) := by
      rcases hstep with ⟨-, hdriven⟩ | ⟨-, rfl⟩
      · exact ⟨hdriven.tolerance, hdriven.columns, fun i hi =>
          hdriven.unitIn hself.row_ne_zero (ne_of_mem_of_not_mem hi hnotMem) (hunit i hi)⟩
      · exact ⟨rfl, rfl, hunit⟩
    obtain ⟨z, hz, hmoved⟩ := ih (htolerance.trans htol) (by rw [hcolumns]; exact hfirst) hnodup
      hkeep (fun p hp => hmissed p (List.mem_append_right _ hp)) h
    exact exists_movedTo_of_expungeRow htol hnonneg hone hself hnotMem hunit
      (fun p hp => hmissed p (List.mem_append_left _ hp)) hV hz hmoved

/-- A solution after the artificial columns are driven out is one before, up to the values of the
artificial variables. These differ by no more than the rows that are cleared are missed by at the
solution, when each row has a unit column. -/
theorem exists_solves_of_expunge (hnonneg : 0 ≤ T.tolerance) (hone : T.tolerance < 1)
    {artificials : List Artificial} (hfirst : T.firstArtificial artificials ≤ T.columns)
    (hunit : ∀ row ∈ T.constraintRows, ∃ c, T.UnitIn row c) (hgap : 0 ≤ gap)
    (hmissed : ∀ p ∈ T.cleared (T.expunge T.tolerance artificials).events,
      |p.1.missedBy p.2 x| ≤ gap)
    (h : (T.expunge T.tolerance artificials).result = .ok U) (hx : U.Solves x) :
    ∃ z, T.Solves z ∧ (∀ j < T.firstArtificial artificials, z j = x j) ∧
      ∀ j, |z j - x j| ≤ gap := by
  choose! own hown using hunit
  rw [expunge_eq_foldlM] at h hmissed
  obtain ⟨z, hz, hmoved⟩ := exists_movedTo_of_foldlM_expungeRow T.basicColumn rfl hnonneg hone
    hfirst hgap List.nodup_range' hown hmissed h hx
  exact ⟨z, hz, fun j hj => hmoved.eq_of_lt hj, hmoved.abs_sub_le⟩

end LinProg.Tableau
