import LinProg.Proofs.Canonical
import LinProg.Proofs.Ownership

/-!
# Pricing out several columns

Phase one prices out its artificial columns, and phase two prices out the columns that are basic by
then. Both go over a list of places, each a constraint row and a column that has a one in it.
`Repriced` says what comes of it in any arithmetic that is exact about zero and one: the constraint
rows stay the same, and the objective entry of a listed column becomes zero when no other listed row
has an entry in the column. A column that no listed row has an entry in keeps a zero. So a column
that `BecomesBasic` is owned by its row afterwards (`Repriced.owns`).

Over exact numbers the equations and the objective are kept as well (`Priced`). With such a column
for each row that is not zero, each row is zero or has a basic column then (`Priced.zeroOrBasic`),
and without tolerance the tableau is canonical (`Priced.canonical`). -/

namespace LinProg.Tableau

section Rounded

open Scalar (IsZero ExactUnits)

variable {α : Type} [Scalar α] {T U : Tableau α} {places : List (ℕ × ℕ)}

/-- `U` is `T` with the columns at the places priced out, one after the other. -/
structure Repriced (T : Tableau α) (places : List (ℕ × ℕ)) (U : Tableau α) : Prop where
  /-- The columns are the same variables. -/
  model : U.model = T.model
  /-- The tolerance is the same. -/
  tolerance : U.tolerance = T.tolerance
  /-- There are as many rows. -/
  height : U.matrix.height = T.matrix.height
  /-- The constraint rows are the same. -/
  entry_of_ne : ∀ i ≠ 0, ∀ j, U.entry i j = T.entry i j
  /-- A column whose only listed row is its own has the objective entry zero, when it is listed or
  had it before. -/
  isZero_entry : ∀ c, (∀ p ∈ places, p.2 = c ∨ IsZero (T.entry p.1 c)) →
    (IsZero (T.entry 0 c) ∨ ∃ p ∈ places, p.2 = c) → IsZero (U.entry 0 c)

/-- Pricing out keeps the columns. -/
theorem Repriced.columns (h : T.Repriced places U) : U.columns = T.columns :=
  columns_eq_of_model_eq h.model

/-- Pricing out keeps the right-hand sides of the constraint rows. -/
theorem Repriced.rhs (h : T.Repriced places U) {i : ℕ} (hi : i ≠ 0) : U.rhs i = T.rhs i := by
  unfold Tableau.rhs
  rw [h.columns, h.entry_of_ne i hi]

/-- Pricing out keeps a zero of the objective row in a column that the row has no entry in. -/
theorem PricedOut.isZero_entry [ExactUnits α] {row column c : ℕ} (h : T.PricedOut row column U)
    (hrow : IsZero (T.entry row c)) (hzero : IsZero (T.entry 0 c)) : IsZero (U.entry 0 c) := by
  by_cases hc : c = column
  · rw [hc, h.entry_self]
    exact ExactUnits.isZero_zero
  rcases lt_or_ge T.columns c with hlt | hle
  · have hcolumns : U.columns = T.columns := columns_eq_of_model_eq h.model
    rw [U.entry_eq_zero_of_columns_lt 0 (by rw [hcolumns]; exact hlt)]
    exact ExactUnits.isZero_zero
  · rw [h.entry_zero c hle hc]
    split
    · exact hzero
    · exact ExactUnits.isZero_sub hzero (ExactUnits.isZero_mul h.isFinite_factor hrow)

/-- Pricing out at places that is possible does what pricing out does. -/
theorem repriced_of_eq_ok [ExactUnits α] (hplaces : ∀ p ∈ places, p.1 ≠ 0)
    (h : places.foldlM (fun T p => T.priceOut p.1 p.2) T = .ok U) : T.Repriced places U := by
  induction places generalizing T with
  | nil =>
    rw [List.foldlM_nil] at h
    cases h
    refine ⟨rfl, rfl, rfl, fun _ _ _ => rfl, fun c _ hc => hc.resolve_right ?_⟩
    rintro ⟨p, hp, -⟩
    exact absurd hp (by simp)
  | cons p places ih =>
    have hrow : p.1 ≠ 0 := hplaces p (by simp)
    rw [List.foldlM_cons] at h
    obtain ⟨V, hV, h⟩ := (bind_eq_ok_iff _ _ _).1 h
    have hprice := pricedOut_of_eq_ok hrow hV
    have hrest := ih (fun q hq => hplaces q (by simp [hq])) h
    refine ⟨hrest.model.trans hprice.model, hrest.tolerance.trans hprice.tolerance,
      hrest.height.trans hprice.height, fun i hi j => ?_, fun c hrows hc => ?_⟩
    · rw [hrest.entry_of_ne i hi, hprice.entry_of_ne i hi]
    · have hrows' : ∀ q ∈ places, q.2 = c ∨ IsZero (V.entry q.1 c) := by
        intro q hq
        rw [hprice.entry_of_ne _ (hplaces q (by simp [hq]))]
        exact hrows q (by simp [hq])
      apply hrest.isZero_entry c hrows'
      by_cases hpc : p.2 = c
      · left
        rw [← hpc, hprice.entry_self]
        exact ExactUnits.isZero_zero
      · -- The row of another column has no entry in this one, so a zero stays.
        have hentry : IsZero (T.entry p.1 c) := (hrows p (by simp)).resolve_left hpc
        rcases hc with hzero | ⟨q, hq, hqc⟩
        · exact Or.inl (hprice.isZero_entry hentry hzero)
        · rcases List.mem_cons.1 hq with rfl | hq
          · exact absurd hqc hpc
          · exact Or.inr ⟨q, hq, hqc⟩

/-- The column is basic in the row once the places are priced out: below the objective it is a unit
vector, its row is listed with no other column, and its objective entry is zero or priced out. -/
structure BecomesBasic (T : Tableau α) (places : List (ℕ × ℕ)) (row column : ℕ) : Prop where
  /-- The column is one of the variables. -/
  lt_columns : column < T.columns
  /-- The row is a constraint row. -/
  row_ne_zero : row ≠ 0
  /-- Below the objective the column is a unit vector. -/
  entry_of_ne : ∀ k ≠ 0, T.entry k column = if k = row then 1 else 0
  /-- Another column is listed in another constraint row. -/
  place_cases : ∀ p ∈ places, p.2 = column ∨ p.1 ≠ row ∧ p.1 ≠ 0
  /-- The objective entry is zero, or the column is listed. -/
  zero_or_listed : IsZero (T.entry 0 column) ∨ ∃ p ∈ places, p.2 = column

/-- After pricing out the row owns such a column. -/
theorem Repriced.owns [ExactUnits α] (h : T.Repriced places U) {i c : ℕ}
    (hc : T.BecomesBasic places i c) : U.Owns i c := by
  have hrows : ∀ p ∈ places, p.2 = c ∨ IsZero (T.entry p.1 c) := by
    intro p hp
    rcases hc.place_cases p hp with hpc | ⟨hne, hp0⟩
    · exact Or.inl hpc
    · rw [hc.entry_of_ne _ hp0, if_neg hne]
      exact Or.inr ExactUnits.isZero_zero
  -- No other place touches the objective entry of the column.
  have hprice := h.isZero_entry c hrows hc.zero_or_listed
  refine ⟨by rw [h.columns]; exact hc.lt_columns, hc.row_ne_zero, ?_, fun k hk => ?_⟩
  · rw [h.entry_of_ne i hc.row_ne_zero, hc.entry_of_ne i hc.row_ne_zero, if_pos rfl]
  · by_cases hk0 : k = 0
    · rw [hk0]
      exact hprice
    · rw [h.entry_of_ne k hk0, hc.entry_of_ne k hk0, if_neg hk]
      exact ExactUnits.isZero_zero

end Rounded

variable {T U : Tableau ℚ}

/-- Pricing out keeps the solutions, as it leaves the constraint rows alone. -/
theorem Repriced.solves_iff {places : List (ℕ × ℕ)} (h : T.Repriced places U) (y : ℕ → ℚ) :
    U.Solves y ↔ T.Solves y := by
  refine forall₂_congr fun i hi => ?_
  have hvalue : U.rowValue i y = T.rowValue i y := by
    unfold rowValue
    rw [h.columns]
    exact Finset.sum_congr rfl fun j _ => by rw [h.entry_of_ne i hi]
  rw [hvalue, h.rhs hi]

/-- `U` is `T` with the columns at the places priced out, over exact numbers. -/
structure Priced (T : Tableau ℚ) (places : List (ℕ × ℕ)) (U : Tableau ℚ) : Prop
    extends T.Repriced places U where
  /-- The equations and the objective are kept. -/
  equivalent : T.Equivalent U

/-- Columns can be priced out at all places in constraint rows. -/
theorem exists_foldlM_priceOut_eq_ok {places : List (ℕ × ℕ)}
    (h : ∀ p ∈ places, p.1 ≠ 0 ∧ p.1 < T.matrix.height ∧ p.2 ≤ T.columns) :
    ∃ U, places.foldlM (fun T p => T.priceOut p.1 p.2) T = .ok U ∧ T.Repriced places U := by
  have hok : ∃ U, places.foldlM (fun T p => T.priceOut p.1 p.2) T = .ok U := by
    induction places generalizing T with
    | nil => exact ⟨T, rfl⟩
    | cons p places ih =>
      obtain ⟨hrow, hlt, hcolumn⟩ := h p (by simp)
      obtain ⟨V, hV⟩ := exists_priceOut_eq_ok hlt hcolumn rfl
      have hprice := priceOf_of_eq_ok hrow hV
      have hheight := hprice.height
      have hcolumns := hprice.columns
      obtain ⟨U, hU⟩ := ih (T := V) fun q hq => by
        obtain ⟨hqrow, hqlt, hqcolumn⟩ := h q (by simp [hq])
        exact ⟨hqrow, by omega, by omega⟩
      refine ⟨U, ?_⟩
      rw [List.foldlM_cons, hV]
      exact hU
  obtain ⟨U, hU⟩ := hok
  exact ⟨U, hU, repriced_of_eq_ok (fun p hp => (h p hp).1) hU⟩

/-- Pricing out at places with a one keeps the equations and the objective. -/
theorem equivalent_of_foldlM_priceOut {places : List (ℕ × ℕ)}
    (hone : ∀ p ∈ places, p.1 ≠ 0 ∧ T.entry p.1 p.2 = 1)
    (h : places.foldlM (fun T p => T.priceOut p.1 p.2) T = .ok U) : T.Equivalent U := by
  induction places generalizing T with
  | nil =>
    cases h
    exact .refl U
  | cons p places ih =>
    obtain ⟨hrow, hentry⟩ := hone p (by simp)
    rw [List.foldlM_cons] at h
    obtain ⟨V, hV, h⟩ := (bind_eq_ok_iff _ _ _).1 h
    have hprice := priceOf_of_eq_ok hrow hV
    -- The other places keep their ones, as pricing out leaves the constraint rows alone.
    refine (hprice.equivalent hrow hentry).trans (ih (fun q hq => ?_) h)
    obtain ⟨hqrow, hqone⟩ := hone q (by simp [hq])
    exact ⟨hqrow, by rw [hprice.entry_of_ne _ hqrow, hqone]⟩

/-- Columns can be priced out at places with a one. -/
theorem exists_foldlM_priceOut {places : List (ℕ × ℕ)}
    (h : ∀ p ∈ places, p.1 ≠ 0 ∧ p.1 < T.matrix.height ∧ p.2 ≤ T.columns ∧
      T.entry p.1 p.2 = 1) :
    ∃ U, places.foldlM (fun T p => T.priceOut p.1 p.2) T = .ok U ∧ T.Priced places U := by
  obtain ⟨U, hU, hrepriced⟩ := exists_foldlM_priceOut_eq_ok fun p hp =>
    ⟨(h p hp).1, (h p hp).2.1, (h p hp).2.2.1⟩
  exact ⟨U, hU, hrepriced,
    equivalent_of_foldlM_priceOut (fun p hp => ⟨(h p hp).1, (h p hp).2.2.2⟩) hU⟩

/-- Pricing out makes a column basic that becomes so. -/
theorem Priced.basicIn {places : List (ℕ × ℕ)} (h : T.Priced places U) {i c : ℕ}
    (hc : T.BecomesBasic places i c) : U.BasicIn i c :=
  owns_iff_basicIn.1 (h.toRepriced.owns hc)

/-- When each constraint row is zero or has a column that becomes basic, pricing out leaves each row
zero or with a basic column. -/
theorem Priced.zeroOrBasic {places : List (ℕ × ℕ)} (h : T.Priced places U)
    (hrows : ∀ i ≠ 0, (∀ j, T.entry i j = 0) ∨ ∃ c, T.BecomesBasic places i c) :
    U.ZeroOrBasic := by
  intro i hi
  rcases hrows i hi with hzero | ⟨c, hc⟩
  · exact Or.inl fun j => by rw [h.entry_of_ne i hi, hzero]
  · exact Or.inr ⟨c, h.basicIn hc⟩

/-- When each constraint row is zero or has a column that becomes basic, pricing out gives a
canonical tableau. -/
theorem Priced.canonical {places : List (ℕ × ℕ)} (h : T.Priced places U) (htol : T.tolerance = 0)
    (hrhs : ∀ i ≠ 0, 0 ≤ T.rhs i)
    (hrows : ∀ i ≠ 0, (∀ j, T.entry i j = 0) ∨ ∃ c, T.BecomesBasic places i c) :
    U.Canonical := by
  refine ⟨h.tolerance.trans htol, h.zeroOrBasic hrows, fun i hi => ?_⟩
  rw [h.rhs hi]
  exact hrhs i hi

end LinProg.Tableau
