import LinProg.Proofs.Canonical
import LinProg.Proofs.Course

/-!
# Driving out artificial columns

When phase one ends, some artificial variables may still be basic. `expunge` goes over the rows once
and makes another column basic there, or clears the row when it has no other entry. `DrivenOut` says
what one such step does.

A row is `Settled` when it is zero or has a unit column before the artificial ones whose objective
entry is near zero. A step settles its own row, and every row that was settled stays so, since a
pivot keeps the unit columns of the other rows (`DrivenOut.settled`). So in the end all rows are
settled, whatever the tolerance (`exists_expunge`), and no artificial column is basic
(`ReadsBasis.expunge`).

The events tell which rows were `cleared`, and in which tableau. When these were zero in all columns
but the artificial ones, then the solutions in which the artificial variables are zero are `Kept`: a
pivot keeps all solutions, and the cleared rows say nothing about such a point (`kept_of_expunge`).
When the right-hand side is zero wherever an artificial variable is basic, the right-hand sides stay
as they are (`rhs_of_expunge`). Without tolerance both is the case at the end of a phase one that
has found a feasible point (`Canonical.exists_expunge`). -/

namespace LinProg.Tableau

variable {T U V : Tableau ℚ} {first : ℕ}

/-- The row is zero, or has a unit column before the given one with an objective entry near zero. -/
def Settled (T : Tableau ℚ) (first i : ℕ) : Prop :=
  (∀ j, T.entry i j = 0) ∨ ∃ c < first, T.UnitIn i c ∧ |T.entry 0 c| ≤ T.tolerance

/-- A settled row is zero, or its basic column is before the given one. -/
theorem Settled.zero_or_basicColumn (hlt : T.tolerance < 1 / 2) {i : ℕ} (h : T.Settled first i) :
    (∀ j, T.entry i j = 0) ∨ ∃ c < first, T.basicColumn i = some c := by
  rcases h with hzero | ⟨d, hd, hunit, hcost⟩
  · exact Or.inl hzero
  · obtain ⟨c, hle, hc⟩ := (hunit.nearBasic hcost).exists_basicColumn hlt hunit.lt_columns
    exact Or.inr ⟨c, lt_of_le_of_lt hle hd, hc⟩

/-- The basic column of a settled row is before the given one. -/
theorem Settled.lt_of_basicColumn (hlt : T.tolerance < 1 / 2) {i c : ℕ} (h : T.Settled first i)
    (hc : T.basicColumn i = some c) : c < first := by
  rcases h.zero_or_basicColumn hlt with hzero | ⟨d, hd, hd'⟩
  · -- Zero is not near one.
    have hone := ((basicColumn_eq_some_iff hlt i c).1 hc).2.1.2.2.1
    rw [hzero, zero_sub, abs_neg, abs_one] at hone
    linarith
  · rw [hc] at hd'
    cases hd'
    exact hd

/-- A row whose basic column is before the given one is settled, when the basis can be read off. -/
theorem ReadsBasis.settled (h : T.ReadsBasis) (hlt : T.tolerance < 1 / 2) {i : ℕ} (hi : i ≠ 0)
    (hbefore : ∀ c, T.basicColumn i = some c → c < first) : T.Settled first i := by
  rcases h.zero_or_basicColumn i hi with hzero | ⟨c, hc⟩
  · exact Or.inl hzero
  · have hcost := ((basicColumn_eq_some_iff hlt i c).1 hc).2.1.1
    exact Or.inr ⟨c, hbefore c hc, h.unitIn i c hc, hcost⟩

/-- When all rows are settled, the basis can be read off as soon as the columns that it reports are
unit vectors. -/
theorem readsBasis_of_settled (hlt : T.tolerance < 1 / 2) (hunit : T.HasUnitBasis)
    (h : ∀ i ≠ 0, T.Settled first i) : T.ReadsBasis := by
  refine ⟨fun i hi => ?_, fun i c hc => hunit.unitIn hlt hc⟩
  rcases (h i hi).zero_or_basicColumn hlt with hzero | ⟨c, -, hc⟩
  · exact Or.inl hzero
  · exact Or.inr ⟨c, hc⟩

/-- Driving out columns from `first` on keeps the shape, and the solutions that vanish on these
columns. -/
structure Kept (T : Tableau ℚ) (first : ℕ) (U : Tableau ℚ) : Prop where
  /-- The columns are the same variables. -/
  model : U.model = T.model
  /-- The tolerance is the same. -/
  tolerance : U.tolerance = T.tolerance
  /-- There are as many rows. -/
  height : U.matrix.height = T.matrix.height
  /-- The solutions that vanish on the columns from `first` on are the same. -/
  solves_iff : ∀ y, (∀ j, first ≤ j → j < T.columns → y j = 0) → (U.Solves y ↔ T.Solves y)

/-- Keeping is reflexive. -/
theorem Kept.refl (T : Tableau ℚ) (first : ℕ) : T.Kept first T :=
  ⟨rfl, rfl, rfl, fun _ _ => Iff.rfl⟩

/-- What is kept has the same columns. -/
theorem Kept.columns (h : T.Kept first U) : U.columns = T.columns :=
  columns_eq_of_model_eq h.model

/-- Keeping is transitive. -/
theorem Kept.trans (h : T.Kept first U) (k : U.Kept first V) : T.Kept first V := by
  refine ⟨k.model.trans h.model, k.tolerance.trans h.tolerance, k.height.trans h.height,
    fun y hy => ?_⟩
  have hy' : ∀ j, first ≤ j → j < U.columns → y j = 0 := by
    rw [h.columns]
    exact hy
  exact (k.solves_iff y hy').trans (h.solves_iff y hy)

/-! ## Events -/

/-- The tableau after an event that happens in it while artificial columns are driven out. -/
def after (T : Tableau ℚ) : Event ℚ → Tableau ℚ
  | .drivenOut _ row replacement => (T.pivot row replacement).toOption.getD T
  | .redundantRow row => (T.clearRow row).toOption.getD T
  | _ => T

/-- When a column comes in for an artificial one, the tableau is the pivoted one. -/
theorem after_drivenOut {row replacement : ℕ} (h : T.pivot row replacement = .ok U) (column : ℕ) :
    T.after (.drivenOut column row replacement) = U := by
  show (T.pivot row replacement).toOption.getD T = U
  rw [h]
  rfl

/-- When a row is redundant, the tableau is the one without it. -/
theorem after_redundantRow {row : ℕ} (h : T.clearRow row = .ok U) :
    T.after (.redundantRow row) = U := by
  show (T.clearRow row).toOption.getD T = U
  rw [h]
  rfl

/-- The rows that are cleared while the events happen, each with the tableau in which it is. -/
def cleared (T : Tableau ℚ) : List (Event ℚ) → List (Tableau ℚ × ℕ)
  | [] => []
  | .redundantRow row :: events => (T, row) :: (T.after (.redundantRow row)).cleared events
  | event :: events => (T.after event).cleared events

/-- The rows cleared by further events are those that these clear in the tableau after the first
ones. -/
theorem cleared_append (T : Tableau ℚ) (events later : List (Event ℚ)) :
    T.cleared (events ++ later) = T.cleared events ++ (events.foldl after T).cleared later := by
  induction events generalizing T with
  | nil => rfl
  | cons event events ih =>
    cases event with
    | redundantRow row => exact congrArg (List.cons (T, row)) (ih _)
    | _ => exact ih _

/-! ## One step -/

/-- Clearing a row keeps the right-hand sides of the others. -/
theorem Cleared.rhs_of_ne {row i : ℕ} (h : T.Cleared row U) (hi : i ≠ row) :
    U.rhs i = T.rhs i := by
  have hcolumns : U.columns = T.columns := columns_eq_of_model_eq h.model
  unfold Tableau.rhs
  rw [h.entry, if_neg hi, hcolumns]

/-- Clearing a row keeps the left-hand sides of the others. -/
theorem Cleared.rowValue_of_ne {row i : ℕ} (h : T.Cleared row U) (hi : i ≠ row) (y : ℕ → ℚ) :
    U.rowValue i y = T.rowValue i y := by
  unfold rowValue
  rw [columns_eq_of_model_eq h.model]
  exact Finset.sum_congr rfl fun j _ => by rw [h.entry, if_neg hi]

/-- Clearing a row with right-hand side zero keeps the right-hand sides. -/
theorem Cleared.rhs_eq {row : ℕ} (h : T.Cleared row U) (hzero : T.rhs row = 0) (i : ℕ) :
    U.rhs i = T.rhs i := by
  by_cases hi : i = row
  · rw [hi, hzero]
    exact (h.entry row U.columns).trans (if_pos rfl)
  · exact h.rhs_of_ne hi

/-- `U` is `T` after a column was driven out of a row: another column before the artificial ones
came in, or the row was cleared, as it had no entry before them beyond the tolerance. -/
inductive DrivenOut (T : Tableau ℚ) (first row : ℕ) (U : Tableau ℚ) : Prop
  /-- Another column comes in. -/
  | pivot {replacement : ℕ} (hreplacement : replacement < first)
      (hpivot : T.PivotOf row replacement U)
  /-- The row is cleared. -/
  | clear (hnone : ∀ j < first, |T.entry row j| ≤ T.tolerance) (hclear : T.Cleared row U)

/-- Driving a column out of a constraint row never fails. -/
theorem exists_driveOut {tolerance : ℚ} (htol : T.tolerance = tolerance) (hnonneg : 0 ≤ tolerance)
    (hfirst : first ≤ T.columns) {row : ℕ} (hlt : row < T.matrix.height) (column : ℕ) :
    ∃ U, (T.driveOut tolerance first row column).result = .ok U ∧ T.DrivenOut first row U := by
  subst htol
  unfold driveOut
  cases hfind : (List.range first).find? fun j =>
      Scalar.isSignificant T.tolerance (T.entry row j) with
  | some replacement =>
    -- The first other column with an entry in the row comes in.
    have hreplacement : replacement < first := List.mem_range.1 (List.mem_of_find?_eq_some hfind)
    have hsignificant : T.tolerance < |T.entry row replacement| :=
      (Scalar.isSignificant_iff _ _).1 (by simpa using List.find?_some hfind)
    obtain ⟨U, hU⟩ := exists_pivot_eq_ok hlt (by omega) hsignificant
    refine ⟨U, ?_, .pivot hreplacement (pivotOf_of_eq_ok hnonneg hU)⟩
    simp only [hU, Recorded.result_bind_of_ok _ (Recorded.result_record _)]
    rfl
  | none =>
    -- There is no other column with an entry, so the row is cleared.
    have hnone : ∀ j < first, |T.entry row j| ≤ T.tolerance := by
      intro j hj
      rw [← Scalar.not_isSignificant_iff]
      exact List.find?_eq_none.1 hfind j (List.mem_range.2 hj)
    obtain ⟨U, hU, hclear⟩ := exists_clearRow_eq_ok hlt
    refine ⟨U, ?_, .clear hnone hclear⟩
    simp only [hU, Recorded.result_bind_of_ok _ (Recorded.result_record _)]
    rfl

namespace DrivenOut

variable {row : ℕ}

/-- Driving out keeps the columns. -/
theorem model (h : T.DrivenOut first row U) : U.model = T.model := by
  cases h with
  | pivot _ hpivot => exact hpivot.model
  | clear _ hclear => exact hclear.model

/-- Driving out keeps the tolerance. -/
theorem tolerance (h : T.DrivenOut first row U) : U.tolerance = T.tolerance := by
  cases h with
  | pivot _ hpivot => exact hpivot.tolerance
  | clear _ hclear => exact hclear.tolerance

/-- Driving out keeps the number of rows. -/
theorem height (h : T.DrivenOut first row U) : U.matrix.height = T.matrix.height := by
  cases h with
  | pivot _ hpivot => exact hpivot.height
  | clear _ hclear => exact hclear.height

/-- Driving out keeps the number of columns. -/
theorem columns (h : T.DrivenOut first row U) : U.columns = T.columns :=
  columns_eq_of_model_eq h.model

/-- A row that is zero stays zero. -/
theorem entry_eq_zero (h : T.DrivenOut first row U) {i : ℕ} (hempty : ∀ j, T.entry i j = 0)
    (j : ℕ) : U.entry i j = 0 := by
  cases h with
  | pivot _ hpivot => exact hpivot.entry_eq_zero hempty j
  | clear _ hclear => rw [hclear.entry, hempty, ite_self]

/-- A column that has no entry in the row stays as it is. -/
theorem entry_of_entry_eq_zero (h : T.DrivenOut first row U) {c : ℕ} (hzero : T.entry row c = 0)
    (k : ℕ) : U.entry k c = T.entry k c := by
  cases h with
  | pivot _ hpivot => exact hpivot.entry_of_entry_eq_zero hzero k
  | clear _ hclear =>
    rw [hclear.entry]
    split
    · rename_i hk
      rw [hk, hzero]
    · rfl

/-- The unit columns of the other rows are kept. -/
theorem unitIn (h : T.DrivenOut first row U) (hrow : row ≠ 0) {i c : ℕ} (hi : i ≠ row)
    (hunit : T.UnitIn i c) : U.UnitIn i c := by
  have hkeep := h.entry_of_entry_eq_zero (hunit.entry_eq_zero row hrow hi.symm)
  refine ⟨by rw [h.columns]; exact hunit.lt_columns, hunit.row_ne_zero, ?_, fun k hk hki => ?_⟩
  · rw [hkeep, hunit.entry_eq_one]
  · rw [hkeep, hunit.entry_eq_zero k hk hki]

/-- Driving a column out of a row settles the row, and keeps the others settled. -/
theorem settled (h : T.DrivenOut first row U) (htol : 0 ≤ T.tolerance) (hrow : row ≠ 0)
    (hfirst : first ≤ T.columns) :
    U.Settled first row ∧ ∀ i, T.Settled first i → U.Settled first i := by
  have hself : U.Settled first row := by
    cases h with
    | @pivot replacement hreplacement hpivot =>
      have hbasic := hpivot.basicIn hrow (by omega)
      exact Or.inr ⟨replacement, hreplacement, hbasic.unitIn,
        hbasic.abs_entry_zero_le (by rw [hpivot.tolerance]; exact htol)⟩
    | clear _ hclear => exact Or.inl fun j => (hclear.entry row j).trans (if_pos rfl)
  refine ⟨hself, fun i hi => ?_⟩
  by_cases hir : i = row
  · rw [hir]
    exact hself
  · rcases hi with hempty | ⟨c, hc, hunit, hcost⟩
    · exact Or.inl (h.entry_eq_zero hempty)
    · refine Or.inr ⟨c, hc, h.unitIn hrow hir hunit, ?_⟩
      rw [h.entry_of_entry_eq_zero (hunit.entry_eq_zero row hrow (Ne.symm hir)), h.tolerance]
      exact hcost

/-- Driving a column out of a row with right-hand side zero keeps the right-hand sides. -/
theorem rhs_eq (h : T.DrivenOut first row U) (hzero : T.rhs row = 0) (i : ℕ) :
    U.rhs i = T.rhs i := by
  cases h with
  | pivot _ hpivot => exact hpivot.rhs_eq hzero i
  | clear _ hclear => exact hclear.rhs_eq hzero i

end DrivenOut

/-- Clearing a row that is zero before `first` and has right-hand side zero keeps the solutions that
vanish from `first` on. -/
theorem Cleared.kept {row : ℕ} (h : T.Cleared row U) (hempty : ∀ j < first, T.entry row j = 0)
    (hzero : T.rhs row = 0) : T.Kept first U := by
  have hcleared : ∀ y, U.rowValue row y = 0 := by
    intro y
    exact Finset.sum_eq_zero fun j _ => by rw [h.entry, if_pos rfl, zero_mul]
  have hvanish : ∀ y, (∀ j, first ≤ j → j < T.columns → y j = 0) → T.rowValue row y = 0 := by
    intro y hy
    refine Finset.sum_eq_zero fun j hj => ?_
    rcases lt_or_ge j first with hlt | hge
    · rw [hempty j hlt, zero_mul]
    · rw [hy j hge (Finset.mem_range.1 hj), mul_zero]
  refine ⟨h.model, h.tolerance, h.height, fun y hy => ?_⟩
  refine forall₂_congr fun i _ => ?_
  rw [h.rhs_eq hzero]
  by_cases hi : i = row
  · -- The row was met before as well.
    rw [hi, hcleared, hvanish y hy]
  · rw [h.rowValue_of_ne hi]

/-- The event of driving out leads to the tableau after it. -/
theorem foldl_after_driveOut {tolerance : ℚ} {row column : ℕ}
    (h : (T.driveOut tolerance first row column).result = .ok U) :
    (T.driveOut tolerance first row column).events.foldl after T = U := by
  cases hfind : (List.range first).find? fun j =>
      Scalar.isSignificant tolerance (T.entry row j) with
  | some replacement =>
    rw [driveOut_of_find?_eq_some hfind] at h ⊢
    exact after_drivenOut ((Recorded.result_guarded_eq_ok_iff _ _).1 h) column
  | none =>
    rw [driveOut_of_find?_eq_none hfind] at h ⊢
    exact after_redundantRow ((Recorded.result_guarded_eq_ok_iff _ _).1 h)

/-- Driving a column out of a row pivots, or the row is the one that is cleared, and it has no entry
before `first` beyond the tolerance. -/
theorem pivotOf_or_cleared_of_driveOut {tolerance : ℚ} (htol : T.tolerance = tolerance)
    (hnonneg : 0 ≤ tolerance) {row column : ℕ}
    (h : (T.driveOut tolerance first row column).result = .ok U) :
    (∃ replacement, T.PivotOf row replacement U) ∨
      T.cleared (T.driveOut tolerance first row column).events = [(T, row)] ∧
        (∀ j < first, |T.entry row j| ≤ tolerance) ∧ T.Cleared row U := by
  cases hfind : (List.range first).find? fun j =>
      Scalar.isSignificant tolerance (T.entry row j) with
  | some replacement =>
    rw [driveOut_of_find?_eq_some hfind] at h
    exact Or.inl ⟨replacement, pivotOf_of_eq_ok (by rw [htol]; exact hnonneg)
      ((Recorded.result_guarded_eq_ok_iff _ _).1 h)⟩
  | none =>
    rw [driveOut_of_find?_eq_none hfind] at h ⊢
    have hclear := cleared_of_eq_ok ((Recorded.result_guarded_eq_ok_iff _ _).1 h)
    refine Or.inr ⟨rfl, fun j hj => ?_, hclear⟩
    rw [← Scalar.not_isSignificant_iff]
    exact List.find?_eq_none.1 hfind j (List.mem_range.2 hj)

/-- Driving a column out of a row keeps the solutions, unless it clears a row with an entry before
`first` or a right-hand side. -/
theorem kept_of_driveOut {tolerance : ℚ} (htol : T.tolerance = tolerance) (hnonneg : 0 ≤ tolerance)
    {row column : ℕ} (hrow : row ≠ 0)
    (hcleared : ∀ p ∈ T.cleared (T.driveOut tolerance first row column).events,
      (∀ j < first, p.1.entry p.2 j = 0) ∧ p.1.rhs p.2 = 0)
    (h : (T.driveOut tolerance first row column).result = .ok U) : T.Kept first U := by
  rcases pivotOf_or_cleared_of_driveOut htol hnonneg h with
    ⟨replacement, hpivot⟩ | ⟨hevents, -, hclear⟩
  · exact ⟨hpivot.model, hpivot.tolerance, hpivot.height,
      fun y _ => (hpivot.equivalent hrow).solves_iff y⟩
  · obtain ⟨hempty, hzero⟩ := hcleared (T, row) (by rw [hevents]; exact List.mem_cons_self)
    exact hclear.kept hempty hzero

/-- A row that driving out clears has no entry before `first` beyond the tolerance. -/
theorem abs_entry_le_of_mem_cleared_driveOut {tolerance : ℚ} {row column : ℕ}
    {p : Tableau ℚ × ℕ} (hp : p ∈ T.cleared (T.driveOut tolerance first row column).events) :
    p = (T, row) ∧ ∀ j < first, |T.entry row j| ≤ tolerance := by
  cases hfind : (List.range first).find? fun j =>
      Scalar.isSignificant tolerance (T.entry row j) with
  | some replacement =>
    rw [driveOut_of_find?_eq_some hfind] at hp
    exact absurd hp List.not_mem_nil
  | none =>
    rw [driveOut_of_find?_eq_none hfind] at hp
    refine ⟨List.mem_singleton.1 hp, fun j hj => ?_⟩
    rw [← Scalar.not_isSignificant_iff]
    exact List.find?_eq_none.1 hfind j (List.mem_range.2 hj)

/-! ## All rows -/

/-- One step of `expunge`, for a row and the column that was basic in it at the start. -/
def expungeRow (tolerance : ℚ) (first : ℕ) (T : Tableau ℚ) :
    ℕ × Option ℕ → Recorded ℚ (Tableau ℚ)
  | (row, some column) =>
    if first ≤ column then T.driveOut tolerance first row column else pure T
  | (_, none) => pure T

/-- A row without an artificial column is left alone. -/
theorem expungeRow_of_lt {tolerance : ℚ} {row : ℕ} {column? : Option ℕ}
    (h : ∀ c, column? = some c → c < first) :
    expungeRow tolerance first T (row, column?) = pure T := by
  cases column? with
  | none => rfl
  | some c => exact if_neg (not_le.2 (h c rfl))

/-- An artificial column is driven out of its row. -/
theorem expungeRow_of_le {tolerance : ℚ} {row c : ℕ} (h : first ≤ c) :
    expungeRow tolerance first T (row, some c) = T.driveOut tolerance first row c :=
  if_pos h

/-- A row has an artificial column or none. -/
theorem le_or_forall_lt (first : ℕ) (column? : Option ℕ) :
    (∃ c, column? = some c ∧ first ≤ c) ∨ ∀ c, column? = some c → c < first := by
  cases column? with
  | none => exact Or.inr nofun
  | some c =>
    rcases le_or_gt first c with hle | hlt
    · exact Or.inl ⟨c, rfl, hle⟩
    · refine Or.inr fun d hd => ?_
      cases hd
      exact hlt

/-- The rows are gone over one after the other. -/
theorem expunge_eq_foldlM (T : Tableau ℚ) (tolerance : ℚ) (artificials : List Artificial) :
    T.expunge tolerance artificials =
      (T.constraintRows.map fun row => (row, T.basicColumn row)).foldlM
        (expungeRow tolerance (T.firstArtificial artificials)) T := by
  unfold expunge
  rw [constraintRows_zip_basis]
  refine congrArg (fun step => List.foldlM step T _) (funext fun U => funext fun p => ?_)
  obtain ⟨row, column?⟩ := p
  cases column? with
  | none => rfl
  | some column => rfl

/-- A step drives an artificial column out, and changes nothing when there is none. -/
theorem exists_expungeRow {tolerance : ℚ} (htol : T.tolerance = tolerance) (hnonneg : 0 ≤ tolerance)
    (hfirst : first ≤ T.columns) {row : ℕ} (hlt : row < T.matrix.height) (column? : Option ℕ) :
    ∃ U, (expungeRow tolerance first T (row, column?)).result = .ok U ∧
      ((∃ c, column? = some c ∧ first ≤ c) ∧ T.DrivenOut first row U ∨
        (∀ c, column? = some c → c < first) ∧ U = T) := by
  rcases le_or_forall_lt first column? with ⟨c, rfl, hle⟩ | hbefore
  · obtain ⟨U, hU, hdriven⟩ := exists_driveOut htol hnonneg hfirst hlt c
    exact ⟨U, by rw [expungeRow_of_le hle, hU], Or.inl ⟨⟨c, rfl, hle⟩, hdriven⟩⟩
  · exact ⟨T, by rw [expungeRow_of_lt hbefore]; rfl, Or.inr ⟨hbefore, rfl⟩⟩

/-- Going over rows settles them all, when those without an artificial column are settled from the
start. -/
theorem exists_foldlM_expungeRow (basic : ℕ → Option ℕ) {rows : List ℕ} {tolerance : ℚ}
    (htol : T.tolerance = tolerance) (hnonneg : 0 ≤ tolerance) (hfirst : first ≤ T.columns)
    (hrows : ∀ row ∈ rows, row ≠ 0 ∧ row < T.matrix.height)
    (hsettled : ∀ row ∈ rows, (∀ c, basic row = some c → c < first) → T.Settled first row) :
    ∃ U, ((rows.map fun row => (row, basic row)).foldlM (expungeRow tolerance first) T).result =
        .ok U ∧
      U.model = T.model ∧ U.tolerance = T.tolerance ∧ U.matrix.height = T.matrix.height ∧
      (∀ i, T.Settled first i → U.Settled first i) ∧ ∀ row ∈ rows, U.Settled first row := by
  induction rows generalizing T with
  | nil => exact ⟨T, rfl, rfl, rfl, rfl, fun _ h => h, by simp⟩
  | cons row rows ih =>
    obtain ⟨hrow, hlt⟩ := hrows row (by simp)
    obtain ⟨V, hV, hstep⟩ := exists_expungeRow htol hnonneg hfirst hlt (basic row)
    -- The step settles its row, unless that was settled, and keeps what is settled.
    obtain ⟨hmodel, htolerance, hheight, hself, hothers⟩ : V.model = T.model ∧
        V.tolerance = T.tolerance ∧ V.matrix.height = T.matrix.height ∧ V.Settled first row ∧
          ∀ i, T.Settled first i → V.Settled first i := by
      rcases hstep with ⟨-, hdriven⟩ | ⟨hbefore, rfl⟩
      · exact ⟨hdriven.model, hdriven.tolerance, hdriven.height,
          hdriven.settled (by rw [htol]; exact hnonneg) hrow hfirst⟩
      · exact ⟨rfl, rfl, rfl, hsettled row (by simp) hbefore, fun _ h => h⟩
    have hcolumns : V.columns = T.columns := columns_eq_of_model_eq hmodel
    obtain ⟨U, hU, hmodel', htolerance', hheight', hothers', hall⟩ :=
      ih (htolerance.trans htol) (by rw [hcolumns]; exact hfirst)
        (fun i hi => by rw [hheight]; exact hrows i (by simp [hi]))
        fun i hi hbefore => hothers i (hsettled i (by simp [hi]) hbefore)
    refine ⟨U, ?_, hmodel'.trans hmodel, htolerance'.trans htolerance, hheight'.trans hheight,
      fun i hi => hothers' i (hothers i hi), fun i hi => ?_⟩
    · rw [List.map_cons, List.foldlM_cons, Recorded.result_bind_of_ok _ hV]
      exact hU
    · rcases List.mem_cons.1 hi with rfl | hi
      · exact hothers' i hself
      · exact hall i hi

/-- `expunge` settles every constraint row, when the rows for which the basis has no artificial
column are settled from the start. -/
theorem exists_expunge {tolerance : ℚ} (htol : T.tolerance = tolerance) (hnonneg : 0 ≤ tolerance)
    {artificials : List Artificial} (hfirst : T.firstArtificial artificials ≤ T.columns)
    (hsettled : ∀ row ∈ T.constraintRows,
      (∀ c, T.basicColumn row = some c → c < T.firstArtificial artificials) →
        T.Settled (T.firstArtificial artificials) row) :
    ∃ U, (T.expunge tolerance artificials).result = .ok U ∧ U.model = T.model ∧
      U.tolerance = T.tolerance ∧ U.matrix.height = T.matrix.height ∧
      ∀ i ≠ 0, U.Settled (T.firstArtificial artificials) i := by
  obtain ⟨U, hU, hmodel, htolerance, hheight, -, hall⟩ :=
    exists_foldlM_expungeRow T.basicColumn htol hnonneg hfirst
      (fun row hrow => (T.mem_constraintRows row).1 hrow) hsettled
  refine ⟨U, by rw [expunge_eq_foldlM]; exact hU, hmodel, htolerance, hheight, fun i hi => ?_⟩
  rcases lt_or_ge i T.matrix.height with hlt | hbelow
  · exact hall i ((T.mem_constraintRows i).2 ⟨hi, hlt⟩)
  · exact Or.inl (U.entry_eq_zero_of_height_le (by rw [hheight]; exact hbelow))

/-- The events of going over a row lead to the tableau after it. -/
theorem foldl_after_expungeRow {tolerance : ℚ} {p : ℕ × Option ℕ}
    (h : (expungeRow tolerance first T p).result = .ok U) :
    (expungeRow tolerance first T p).events.foldl after T = U := by
  obtain ⟨row, column?⟩ := p
  rcases le_or_forall_lt first column? with ⟨c, rfl, hle⟩ | hbefore
  · rw [expungeRow_of_le hle] at h ⊢
    exact foldl_after_driveOut h
  · rw [expungeRow_of_lt hbefore] at h ⊢
    cases h
    rfl

/-- The events of going over rows lead to the tableau after them. -/
theorem foldl_after_foldlM_expungeRow {tolerance : ℚ} (ps : List (ℕ × Option ℕ))
    (h : (ps.foldlM (expungeRow tolerance first) T).result = .ok U) :
    (ps.foldlM (expungeRow tolerance first) T).events.foldl after T = U := by
  induction ps generalizing T with
  | nil =>
    cases h
    rfl
  | cons p ps ih =>
    rw [List.foldlM_cons] at h ⊢
    obtain ⟨V, hV, hrest⟩ := (Recorded.result_bind_eq_ok_iff _ _ _).1 h
    rw [Recorded.events_bind_of_ok _ hV, List.foldl_append, foldl_after_expungeRow hV]
    exact ih hrest

/-- The events of driving out the artificial columns lead to the tableau without them. -/
theorem foldl_after_expunge {tolerance : ℚ} {artificials : List Artificial}
    (h : (T.expunge tolerance artificials).result = .ok U) :
    (T.expunge tolerance artificials).events.foldl after T = U := by
  rw [expunge_eq_foldlM] at h ⊢
  exact foldl_after_foldlM_expungeRow _ h

section Rows

variable (basic : ℕ → Option ℕ) {rows : List ℕ} {tolerance : ℚ}

/-- Going over rows keeps the solutions, unless it clears a row with an entry before `first` or a
right-hand side. -/
theorem kept_of_foldlM_expungeRow (htol : T.tolerance = tolerance) (hnonneg : 0 ≤ tolerance)
    (hrows : ∀ row ∈ rows, row ≠ 0)
    (hcleared : ∀ p ∈ T.cleared ((rows.map fun row => (row, basic row)).foldlM
      (expungeRow tolerance first) T).events,
        (∀ j < first, p.1.entry p.2 j = 0) ∧ p.1.rhs p.2 = 0)
    (h : ((rows.map fun row => (row, basic row)).foldlM (expungeRow tolerance first) T).result =
      .ok U) : T.Kept first U := by
  induction rows generalizing T with
  | nil =>
    cases h
    exact .refl U first
  | cons row rows ih =>
    have hrow := hrows row List.mem_cons_self
    rw [List.map_cons, List.foldlM_cons] at h hcleared
    obtain ⟨V, hV, hrest⟩ := (Recorded.result_bind_eq_ok_iff _ _ _).1 h
    rw [Recorded.events_bind_of_ok _ hV, cleared_append, foldl_after_expungeRow hV] at hcleared
    have hkept : T.Kept first V := by
      rcases le_or_forall_lt first (basic row) with ⟨c, hc, hle⟩ | hbefore
      · rw [hc, expungeRow_of_le hle] at hV hcleared
        exact kept_of_driveOut htol hnonneg hrow
          (fun p hp => hcleared p (List.mem_append_left _ hp)) hV
      · rw [expungeRow_of_lt hbefore] at hV
        cases hV
        exact .refl T first
    refine hkept.trans (ih (hkept.tolerance.trans htol)
      (fun i hi => hrows i (List.mem_cons_of_mem row hi))
      (fun p hp => hcleared p (List.mem_append_right _ hp)) hrest)

/-- Going over rows keeps the right-hand sides, when those with an artificial column have right-hand
side zero. So a row that is cleared has right-hand side zero, and no entry before `first` beyond the
tolerance. -/
theorem rhs_of_foldlM_expungeRow (htol : T.tolerance = tolerance) (hnonneg : 0 ≤ tolerance)
    (hfirst : first ≤ T.columns) (hrows : ∀ row ∈ rows, row ≠ 0 ∧ row < T.matrix.height)
    (hzero : ∀ row ∈ rows, ∀ c, basic row = some c → first ≤ c → T.rhs row = 0)
    (h : ((rows.map fun row => (row, basic row)).foldlM (expungeRow tolerance first) T).result =
      .ok U) :
    (∀ i, U.rhs i = T.rhs i) ∧ ∀ p ∈ T.cleared ((rows.map fun row => (row, basic row)).foldlM
      (expungeRow tolerance first) T).events,
        (∀ j < first, |p.1.entry p.2 j| ≤ tolerance) ∧ p.1.rhs p.2 = 0 := by
  induction rows generalizing T with
  | nil =>
    cases h
    exact ⟨fun _ => rfl, nofun⟩
  | cons row rows ih =>
    obtain ⟨hrow, hlt⟩ := hrows row List.mem_cons_self
    obtain ⟨V, hV, hstep⟩ := exists_expungeRow htol hnonneg hfirst hlt (basic row)
    rw [List.map_cons, List.foldlM_cons, Recorded.result_bind_of_ok _ hV] at h
    rw [List.map_cons, List.foldlM_cons, Recorded.events_bind_of_ok _ hV, cleared_append,
      foldl_after_expungeRow hV]
    obtain ⟨hmodel, htolerance, hheight, hrhs⟩ : V.model = T.model ∧ V.tolerance = T.tolerance ∧
        V.matrix.height = T.matrix.height ∧ ∀ i, V.rhs i = T.rhs i := by
      rcases hstep with ⟨⟨c, hc, hle⟩, hdriven⟩ | ⟨-, rfl⟩
      · exact ⟨hdriven.model, hdriven.tolerance, hdriven.height,
          hdriven.rhs_eq (hzero row List.mem_cons_self c hc hle)⟩
      · exact ⟨rfl, rfl, rfl, fun _ => rfl⟩
    obtain ⟨hrest, hcleared⟩ := ih (htolerance.trans htol)
      (by rw [columns_eq_of_model_eq hmodel]; exact hfirst)
      (fun i hi => by rw [hheight]; exact hrows i (List.mem_cons_of_mem row hi))
      (fun i hi c hc hle => by rw [hrhs]; exact hzero i (List.mem_cons_of_mem row hi) c hc hle) h
    refine ⟨fun i => (hrest i).trans (hrhs i), fun p hp => ?_⟩
    rcases List.mem_append.1 hp with hp | hp
    · rcases le_or_forall_lt first (basic row) with ⟨c, hc, hle⟩ | hbefore
      · rw [hc, expungeRow_of_le hle] at hp
        obtain ⟨rfl, hentries⟩ := abs_entry_le_of_mem_cleared_driveOut hp
        exact ⟨hentries, hzero _ List.mem_cons_self c hc hle⟩
      · rw [expungeRow_of_lt hbefore] at hp
        exact absurd hp List.not_mem_nil
    · exact hcleared p hp

end Rows

/-- Driving out the artificial columns keeps the solutions in which they are zero, unless it clears
a row with another entry or a right-hand side. -/
theorem kept_of_expunge (hnonneg : 0 ≤ T.tolerance) {artificials : List Artificial}
    (hcleared : ∀ p ∈ T.cleared (T.expunge T.tolerance artificials).events,
      (∀ j < T.firstArtificial artificials, p.1.entry p.2 j = 0) ∧ p.1.rhs p.2 = 0)
    (h : (T.expunge T.tolerance artificials).result = .ok U) :
    T.Kept (T.firstArtificial artificials) U := by
  rw [expunge_eq_foldlM] at h hcleared
  exact kept_of_foldlM_expungeRow T.basicColumn rfl hnonneg
    (fun row hrow => ((T.mem_constraintRows row).1 hrow).1) hcleared h

/-- Driving out the artificial columns keeps the right-hand sides, when these are zero wherever an
artificial column is basic. The rows that it clears have right-hand side zero, and no other entry
beyond the tolerance. -/
theorem rhs_of_expunge (hnonneg : 0 ≤ T.tolerance) {artificials : List Artificial}
    (hfirst : T.firstArtificial artificials ≤ T.columns)
    (hzero : ∀ row c, T.basicColumn row = some c → T.firstArtificial artificials ≤ c →
      T.rhs row = 0) (h : (T.expunge T.tolerance artificials).result = .ok U) :
    (∀ i, U.rhs i = T.rhs i) ∧ ∀ p ∈ T.cleared (T.expunge T.tolerance artificials).events,
      (∀ j < T.firstArtificial artificials, |p.1.entry p.2 j| ≤ T.tolerance) ∧
        p.1.rhs p.2 = 0 := by
  rw [expunge_eq_foldlM] at h ⊢
  exact rhs_of_foldlM_expungeRow T.basicColumn rfl hnonneg hfirst
    (fun row hrow => (T.mem_constraintRows row).1 hrow) (fun row _ => hzero row) h

/-- When the basis can be read off, driving out the artificial columns leaves none of them basic,
and the basis can be read off again if the columns that it reports are unit vectors. -/
theorem ReadsBasis.expunge (hT : T.ReadsBasis) (hnonneg : 0 ≤ T.tolerance)
    (hhalf : T.tolerance < 1 / 2) {artificials : List Artificial}
    (hfirst : T.firstArtificial artificials ≤ T.columns)
    (h : (T.expunge T.tolerance artificials).result = .ok U) :
    U.model = T.model ∧ U.tolerance = T.tolerance ∧ U.matrix.height = T.matrix.height ∧
      (∀ i c, U.basicColumn i = some c → c < T.firstArtificial artificials) ∧
      (U.HasUnitBasis → U.ReadsBasis) := by
  obtain ⟨V, hV, hmodel, htolerance, hheight, hsettled⟩ :=
    exists_expunge rfl hnonneg hfirst fun row hrow hbefore =>
      hT.settled hhalf ((T.mem_constraintRows row).1 hrow).1 hbefore
  rw [h] at hV
  cases hV
  rw [← htolerance] at hhalf
  refine ⟨hmodel, htolerance, hheight, fun i c hc => ?_,
    fun hunit => readsBasis_of_settled hhalf hunit hsettled⟩
  have hi := ((U.mem_constraintRows i).1 (mem_constraintRows_of_basicColumn hhalf hc)).1
  exact (hsettled i hi).lt_of_basicColumn hhalf hc

/-- Without tolerance the artificial columns of a canonical tableau can be driven out when the
right-hand side is zero wherever one of them is basic. The right-hand sides stay, and so do the
solutions in which the artificial variables are zero. -/
theorem Canonical.exists_expunge (hT : T.Canonical) {artificials : List Artificial}
    (hfirst : T.firstArtificial artificials ≤ T.columns)
    (hzero : ∀ row c, T.basicColumn row = some c → T.firstArtificial artificials ≤ c →
      T.rhs row = 0) :
    ∃ U, (T.expunge 0 artificials).result = .ok U ∧ T.Kept (T.firstArtificial artificials) U ∧
      (∀ i, U.rhs i = T.rhs i) ∧ U.ReadsBasis ∧
      ∀ i c, U.basicColumn i = some c → c < T.firstArtificial artificials := by
  have hnonneg := hT.tolerance_eq.ge
  have hhalf := tolerance_lt_half hT.tolerance_eq
  rw [← hT.tolerance_eq]
  obtain ⟨U, hU, -⟩ := Tableau.exists_expunge rfl hnonneg hfirst fun row hrow hbefore =>
    hT.readsBasis.settled hhalf ((T.mem_constraintRows row).1 hrow).1 hbefore
  obtain ⟨hrhs, hcleared⟩ := rhs_of_expunge hnonneg hfirst hzero hU
  obtain ⟨-, htolerance, -, hbefore, hreads⟩ := hT.readsBasis.expunge hnonneg hhalf hfirst hU
  -- What is not beyond the tolerance is zero.
  refine ⟨U, hU, kept_of_expunge hnonneg (fun p hp => ⟨fun j hj => ?_, (hcleared p hp).2⟩) hU, hrhs,
    hreads (hasUnitBasis_of_exact (htolerance.trans hT.tolerance_eq)), hbefore⟩
  have hle := (hcleared p hp).1 j hj
  rwa [hT.tolerance_eq, abs_nonpos_iff] at hle

end LinProg.Tableau
