import LinProg.Proofs.PivotRules

/-!
# Canonical tableaux

The invariant of the simplex method without tolerance: each constraint row is zero or has a basic
column, and no right-hand side is negative (`Canonical`). Such a tableau shows a feasible point, its
`basicPoint`, which is the point that the assignment holds. The signs of the objective row then tell
whether it is best (`objectiveAt_le_of_nonneg`), and a column without a positive entry is a ray
along which the objective grows without limit (`exists_objectiveAt_gt`).

Both the point and the direction of a ray put one number for each row at its basic column
(`spread`). A constraint row applied to such a vector gives back its own number, and the objective
row gives zero.

A tableau with the same equations is determined by its basic columns (`Equivalent.entry_eq`): at a
vector that is zero on the constraint rows of one tableau those of the other are zero too, and there
is such a vector for the entries of any column (`offset`). A pivot changes the basic column of one
row only. That a row may have several unit columns does no harm: columns that are equal in one
tableau are equal in all equivalent ones, and the first of equal columns is the one that enters. -/

namespace LinProg.Tableau

variable {T U : Tableau ℚ}

/-- Without tolerance, each constraint row is zero or has a basic column, and the right-hand sides
are not negative. -/
structure Canonical (T : Tableau ℚ) : Prop where
  /-- There is no tolerance. -/
  tolerance_eq : T.tolerance = 0
  /-- A constraint row is zero, or one of its columns is basic. -/
  zero_or_basic : ∀ i ≠ 0, (∀ j, T.entry i j = 0) ∨ ∃ c, T.BasicIn i c
  /-- The right-hand sides of the constraint rows are not negative. -/
  rhs_nonneg : ∀ i ≠ 0, 0 ≤ T.rhs i

/-- Each constraint row is zero, or one of its columns is basic. -/
def ZeroOrBasic (T : Tableau ℚ) : Prop :=
  ∀ i ≠ 0, (∀ j, T.entry i j = 0) ∨ ∃ c, T.BasicIn i c

/-- The basis can be read off: each constraint row is zero or has a basic column, and these columns
are unit vectors. -/
structure ReadsBasis (T : Tableau ℚ) : Prop where
  /-- A constraint row is zero or has a basic column. -/
  zero_or_basicColumn : ∀ i ≠ 0, (∀ j, T.entry i j = 0) ∨ ∃ c, T.basicColumn i = some c
  /-- A basic column is the unit vector of its row. -/
  unitIn : ∀ i c, T.basicColumn i = some c → T.UnitIn i c

/-- When each constraint row is zero or owns a basic column, the basis can be read off as soon as
the columns that it reports are unit vectors. -/
theorem ZeroOrBasic.readsBasis (h : T.ZeroOrBasic) (hnonneg : 0 ≤ T.tolerance)
    (hhalf : T.tolerance < 1 / 2) (hunit : T.HasUnitBasis) : T.ReadsBasis := by
  refine ⟨fun i hi => ?_, fun i c hc => hunit.unitIn hhalf hc⟩
  rcases h i hi with hzero | ⟨c, hc⟩
  · exact Or.inl hzero
  · obtain ⟨b, -, hb⟩ := (hc.nearBasic hnonneg).exists_basicColumn hhalf hc.lt_columns
    exact Or.inr ⟨b, hb⟩

/-- A constraint row of a canonical tableau is zero or has a basic column. -/
theorem Canonical.zero_or_basicColumn (h : T.Canonical) {i : ℕ} (hi : i ≠ 0) :
    (∀ j, T.entry i j = 0) ∨ ∃ c, T.basicColumn i = some c := by
  rcases h.zero_or_basic i hi with hzero | ⟨c, hc⟩
  · exact Or.inl hzero
  · obtain ⟨b, -, hb⟩ := hc.exists_basicColumn h.tolerance_eq
    exact Or.inr ⟨b, hb⟩

/-- The basis of a canonical tableau can be read off. -/
theorem Canonical.readsBasis (h : T.Canonical) : T.ReadsBasis :=
  ZeroOrBasic.readsBasis h.zero_or_basic h.tolerance_eq.ge (tolerance_lt_half h.tolerance_eq)
    (hasUnitBasis_of_exact h.tolerance_eq)

/-- A row that has a non-zero entry has a basic column. -/
theorem Canonical.exists_basicColumn (h : T.Canonical) {i j : ℕ} (hi : i ≠ 0)
    (hne : T.entry i j ≠ 0) : ∃ c, T.basicColumn i = some c :=
  (h.zero_or_basicColumn hi).resolve_left fun hzero => hne (hzero j)

/-! ## Vectors on the basic columns -/

/-- The number of each row at its basic column, and zero at all other columns. -/
def spread (T : Tableau ℚ) (b : ℕ → ℚ) (j : ℕ) : ℚ :=
  match T.basicRow j with
  | some i => if T.basicColumn i = some j then b i else 0
  | none => 0

/-- At the basic column of a row stands the number of the row. -/
theorem spread_of_basicColumn (b : ℕ → ℚ) {i j : ℕ} (h : T.basicColumn i = some j) :
    T.spread b j = b i := by
  have hrow : T.basicRow j = some i := by
    have := List.find?_some h
    simpa using this
  unfold spread
  rw [hrow]
  exact if_pos h

/-- At a column that is not basic stands zero. -/
theorem spread_of_forall_ne (b : ℕ → ℚ) {j : ℕ} (h : ∀ i, T.basicColumn i ≠ some j) :
    T.spread b j = 0 := by
  unfold spread
  split
  · rename_i i _
    exact if_neg (h i)
  · rfl

/-- A lower bound on zero and on the numbers of the rows is one on a vector on the basic columns. -/
theorem ReadsBasis.le_spread (h : T.ReadsBasis) {b : ℕ → ℚ} {least : ℚ} (hleast : least ≤ 0)
    (hb : ∀ i ∈ T.constraintRows, least ≤ b i) (j : ℕ) : least ≤ T.spread b j := by
  by_cases hex : ∃ i, T.basicColumn i = some j
  · obtain ⟨i, hi⟩ := hex
    rw [spread_of_basicColumn b hi]
    exact hb i (h.unitIn i j hi).mem_constraintRows
  · rw [spread_of_forall_ne b fun i hi => hex ⟨i, hi⟩]
    exact hleast

/-- A constraint row gives back its own number, which is zero when the row is. -/
theorem ReadsBasis.rowValue_spread (h : T.ReadsBasis) {b : ℕ → ℚ} {k : ℕ} (hk : k ≠ 0)
    (hb : (∀ j, T.entry k j = 0) → b k = 0) : T.rowValue k (T.spread b) = b k := by
  unfold rowValue
  rcases h.zero_or_basicColumn k hk with hzero | ⟨c, hc⟩
  · rw [hb hzero]
    exact Finset.sum_eq_zero fun j _ => by rw [hzero j, zero_mul]
  · have hunit := h.unitIn k c hc
    -- Of the columns with a number only the basic one has an entry in the row.
    rw [Finset.sum_eq_single c, hunit.entry_eq_one, spread_of_basicColumn b hc, one_mul]
    · intro j _ hj
      by_cases hex : ∃ i, T.basicColumn i = some j
      · obtain ⟨i, hi⟩ := hex
        have hki : k ≠ i := by
          rintro rfl
          exact hj (Option.some.inj (hi.symm.trans hc))
        rw [(h.unitIn i j hi).entry_eq_zero k hk hki, zero_mul]
      · rw [spread_of_forall_ne b fun i hi => hex ⟨i, hi⟩, mul_zero]
    · intro hc'
      exact absurd (Finset.mem_range.2 hunit.lt_columns) hc'

/-- The objective row vanishes on the basic columns. -/
theorem rowValue_zero_spread (htol : T.tolerance = 0) (b : ℕ → ℚ) :
    T.rowValue 0 (T.spread b) = 0 := by
  refine Finset.sum_eq_zero fun j _ => ?_
  by_cases h : ∃ i, T.basicColumn i = some j
  · obtain ⟨i, hi⟩ := h
    rw [entry_zero_eq_zero_of_basicColumn htol hi, zero_mul]
  · rw [spread_of_forall_ne b fun i hi => h ⟨i, hi⟩, mul_zero]

/-- A row at a point moved along a direction. -/
theorem rowValue_add_mul (T : Tableau ℚ) (i : ℕ) (x d : ℕ → ℚ) (t : ℚ) :
    T.rowValue i (fun j => x j + t * d j) = T.rowValue i x + t * T.rowValue i d := by
  unfold rowValue
  rw [Finset.mul_sum, ← Finset.sum_add_distrib]
  exact Finset.sum_congr rfl fun j _ => by ring

/-! ## The basic point -/

/-- The point that has the right-hand side of each row at its basic column. -/
def basicPoint (T : Tableau ℚ) : ℕ → ℚ :=
  T.spread T.rhs

/-- At the basic column of a row the basic point has the right-hand side of the row. -/
theorem basicPoint_of_basicColumn {i j : ℕ} (h : T.basicColumn i = some j) :
    T.basicPoint j = T.rhs i :=
  spread_of_basicColumn T.rhs h

/-- At a column that is not basic the basic point is zero. -/
theorem basicPoint_of_forall_ne {j : ℕ} (h : ∀ i, T.basicColumn i ≠ some j) : T.basicPoint j = 0 :=
  spread_of_forall_ne T.rhs h

/-- A number, or zero when its magnitude is within the tolerance. -/
def cutOff (tolerance x : ℚ) : ℚ :=
  if |x| ≤ tolerance then 0 else x

/-- The assignment holds the basic point, with zero for what is within the tolerance. -/
theorem entry_assignment_eq_cutOff (htol : T.tolerance < 1 / 2) (j : ℕ) :
    Row.entry T.assignment j = cutOff T.tolerance (T.basicPoint j) := by
  by_cases h : ∃ i, T.basicColumn i = some j
  · obtain ⟨i, hi⟩ := h
    rw [entry_assignment_of_basicColumn htol hi, basicPoint_of_basicColumn hi]
    rfl
  · have hnot : ∀ i, T.basicColumn i ≠ some j := fun i hi => h ⟨i, hi⟩
    rw [entry_assignment_of_forall_ne htol hnot, basicPoint_of_forall_ne hnot]
    unfold cutOff
    rw [ite_self]

/-- Without tolerance the assignment holds the basic point. -/
theorem entry_assignment (htol : T.tolerance = 0) (j : ℕ) :
    Row.entry T.assignment j = T.basicPoint j := by
  rw [entry_assignment_eq_cutOff (tolerance_lt_half htol), htol]
  unfold cutOff
  split
  · rename_i hzero
    exact (abs_nonpos_iff.1 hzero).symm
  · rfl

/-- The basic point meets the equations. -/
theorem ReadsBasis.solves_basicPoint (h : T.ReadsBasis) : T.Solves T.basicPoint :=
  fun _ hk => h.rowValue_spread hk fun hzero => hzero T.columns

/-- The basic point of a canonical tableau meets the equations. -/
theorem Canonical.solves_basicPoint (h : T.Canonical) : T.Solves T.basicPoint :=
  h.readsBasis.solves_basicPoint

/-- A vector on the basic columns of a canonical tableau is not negative when the numbers of the
rows are not. -/
theorem Canonical.spread_nonneg (h : T.Canonical) {b : ℕ → ℚ} (hb : ∀ i ≠ 0, 0 ≤ b i) (j : ℕ) :
    0 ≤ T.spread b j :=
  h.readsBasis.le_spread le_rfl (fun i hi => hb i ((T.mem_constraintRows i).1 hi).1) j

/-- The basic point is not negative. -/
theorem Canonical.basicPoint_nonneg (h : T.Canonical) (j : ℕ) : 0 ≤ T.basicPoint j :=
  h.spread_nonneg h.rhs_nonneg j

/-- The objective value of a tableau is that of its basic point. -/
theorem Canonical.objectiveAt_basicPoint (h : T.Canonical) :
    T.objectiveAt T.basicPoint = T.objectiveValue := by
  unfold objectiveAt basicPoint
  rw [rowValue_zero_spread h.tolerance_eq, sub_zero]
  rfl

/-- When no reduced cost is negative, no solution without negative values has a better objective. -/
theorem objectiveAt_le_of_nonneg (hcost : ∀ j < T.columns, 0 ≤ T.entry 0 j) {x : ℕ → ℚ}
    (hx : ∀ j < T.columns, 0 ≤ x j) : T.objectiveAt x ≤ T.objectiveValue := by
  have hsum : 0 ≤ T.rowValue 0 x := by
    refine Finset.sum_nonneg fun j hj => ?_
    have hj := Finset.mem_range.1 hj
    exact mul_nonneg (hcost j hj) (hx j hj)
  calc T.objectiveAt x = T.rhs 0 - T.rowValue 0 x := rfl
    _ ≤ T.rhs 0 := sub_le_self _ hsum

/-! ## Rays -/

/-- The direction in which a column grows, and the basic columns make up for it. -/
def ray (T : Tableau ℚ) (column : ℕ) (j : ℕ) : ℚ :=
  T.spread (fun i => -T.entry i column) j + if j = column then 1 else 0

/-- A row along a ray. -/
theorem rowValue_ray {column : ℕ} (hcolumn : column < T.columns) (i : ℕ) :
    T.rowValue i (T.ray column) =
      T.rowValue i (T.spread fun k => -T.entry k column) + T.entry i column := by
  unfold rowValue ray
  simp only [mul_add, Finset.sum_add_distrib, mul_ite, mul_one, mul_zero, Finset.sum_ite_eq',
    Finset.mem_range, hcolumn, if_true]

/-- Along a ray the equations stay met. -/
theorem Canonical.rowValue_ray_eq_zero (h : T.Canonical) {column : ℕ} (hcolumn : column < T.columns)
    {i : ℕ} (hi : i ≠ 0) : T.rowValue i (T.ray column) = 0 := by
  rw [rowValue_ray hcolumn, h.readsBasis.rowValue_spread hi fun hzero => by rw [hzero, neg_zero]]
  exact neg_add_cancel _

/-- Along a ray the objective row changes by the reduced cost. -/
theorem rowValue_zero_ray (htol : T.tolerance = 0) {column : ℕ} (hcolumn : column < T.columns) :
    T.rowValue 0 (T.ray column) = T.entry 0 column := by
  rw [rowValue_ray hcolumn, rowValue_zero_spread htol, zero_add]

/-- An improving column without a positive entry makes the objective grow beyond every bound, at
points without negative values that meet the equations. -/
theorem Canonical.exists_objectiveAt_gt (h : T.Canonical) {column : ℕ}
    (hcolumn : column < T.columns) (himproving : T.entry 0 column < 0)
    (hunlimited : ∀ i ≠ 0, T.entry i column ≤ 0) (K : ℚ) :
    ∃ x, T.Solves x ∧ (∀ j, 0 ≤ x j) ∧ K < T.objectiveAt x := by
  -- Far enough along the ray: the objective is `rhs 0 - t * cost`, with a negative cost.
  obtain ⟨t, ht0, ht⟩ : ∃ t : ℚ, 0 ≤ t ∧ K < T.rhs 0 - t * T.entry 0 column := by
    refine ⟨max 0 ((T.rhs 0 - K) / T.entry 0 column + 1), le_max_left _ _, ?_⟩
    have hle := le_max_right 0 ((T.rhs 0 - K) / T.entry 0 column + 1)
    have hmul := mul_le_mul_of_nonpos_right hle himproving.le
    have hcancel : (T.rhs 0 - K) / T.entry 0 column * T.entry 0 column = T.rhs 0 - K :=
      div_mul_cancel₀ _ himproving.ne
    rw [add_mul, hcancel, one_mul] at hmul
    linarith
  refine ⟨fun j => T.basicPoint j + t * T.ray column j, fun i hi => ?_, fun j => ?_, ?_⟩
  · rw [T.rowValue_add_mul, h.rowValue_ray_eq_zero hcolumn hi, mul_zero, add_zero]
    exact h.solves_basicPoint i hi
  · have hray : 0 ≤ T.ray column j := by
      refine add_nonneg (h.spread_nonneg (fun i hi => ?_) j) ?_
      · exact neg_nonneg.2 (hunlimited i hi)
      · split
        · exact zero_le_one
        · exact le_rfl
    exact add_nonneg (h.basicPoint_nonneg j) (mul_nonneg ht0 hray)
  · calc K < T.rhs 0 - t * T.entry 0 column := ht
      _ = T.objectiveAt fun j => T.basicPoint j + t * T.ray column j := by
        unfold objectiveAt basicPoint
        rw [T.rowValue_add_mul, rowValue_zero_ray h.tolerance_eq hcolumn,
          rowValue_zero_spread h.tolerance_eq, zero_add]

/-! ## A pivot -/

section Pivot

variable {row column : ℕ} (h : PivotOf T row column U)

include h

/-- A pivot makes its column basic in its row. -/
theorem PivotOf.basicIn (hrow : row ≠ 0) (hcolumn : column < T.columns) : U.BasicIn row column := by
  refine ⟨by rw [h.columns]; exact hcolumn, hrow, ?_, fun k hk => ?_⟩
  · rw [h.entry, if_pos rfl, div_self h.entry_ne_zero]
  · rw [h.entry, if_neg hk, div_self h.entry_ne_zero, mul_one, sub_self]

/-- A column in which the pivot row has no entry stays as it is. -/
theorem PivotOf.entry_of_entry_eq_zero {c : ℕ} (hzero : T.entry row c = 0) (k : ℕ) :
    U.entry k c = T.entry k c := by
  rw [h.entry, hzero, zero_div, mul_zero, sub_zero]
  split
  · rename_i hk
    rw [hk, hzero]
  · rfl

/-- A pivot keeps the basic columns of the other rows basic. -/
theorem PivotOf.basicIn_of_ne {i c : ℕ} (hi : i ≠ row) (hc : T.BasicIn i c) : U.BasicIn i c := by
  have hkeep := h.entry_of_entry_eq_zero (hc.entry_eq_zero row (Ne.symm hi))
  refine ⟨by rw [h.columns]; exact hc.lt_columns, hc.row_ne_zero, ?_, fun k hk => ?_⟩
  · rw [hkeep, hc.entry_eq_one]
  · rw [hkeep, hc.entry_eq_zero k hk]

/-- A pivot keeps a zero row zero. -/
theorem PivotOf.entry_eq_zero {i : ℕ} (hzero : ∀ j, T.entry i j = 0) (j : ℕ) :
    U.entry i j = 0 := by
  have hne : i ≠ row := by
    rintro rfl
    exact h.entry_ne_zero (hzero column)
  rw [h.entry, if_neg hne, hzero, hzero, zero_mul, sub_zero]

/-- The right-hand sides after a pivot. -/
theorem PivotOf.rhs (i : ℕ) : U.rhs i =
    if i = row then T.rhs row / T.entry row column
    else T.rhs i - T.entry i column * (T.rhs row / T.entry row column) := by
  unfold Tableau.rhs
  rw [h.columns]
  exact h.entry i T.columns

/-- A pivot in a row with right-hand side zero keeps all right-hand sides. -/
theorem PivotOf.rhs_eq (hzero : T.rhs row = 0) (i : ℕ) : U.rhs i = T.rhs i := by
  rw [h.rhs, hzero, zero_div, mul_zero, sub_zero]
  split
  · rename_i hi
    rw [hi, hzero]
  · rfl

/-- A pivot leaves each constraint row zero or with a basic column. -/
theorem PivotOf.zeroOrBasic (hT : T.ZeroOrBasic) (hrow : row ≠ 0) (hcolumn : column < T.columns) :
    U.ZeroOrBasic := by
  intro i hi
  by_cases hir : i = row
  · rw [hir]
    exact Or.inr ⟨column, h.basicIn hrow hcolumn⟩
  · rcases hT i hi with hzero | ⟨c, hc⟩
    · exact Or.inl (h.entry_eq_zero hzero)
    · exact Or.inr ⟨c, h.basicIn_of_ne hir hc⟩

/-- A pivot on a positive entry with the least ratio keeps the right-hand sides from being
negative. -/
theorem PivotOf.rhs_nonneg (hrhs : ∀ i ≠ 0, 0 ≤ T.rhs i) (hrow : row ≠ 0)
    (hpos : 0 < T.entry row column)
    (hratio : ∀ i ≠ 0, 0 < T.entry i column →
      T.rhs row / T.entry row column ≤ T.rhs i / T.entry i column) : ∀ i ≠ 0, 0 ≤ U.rhs i := by
  intro i hi
  have hstep : 0 ≤ T.rhs row / T.entry row column := div_nonneg (hrhs row hrow) hpos.le
  rw [h.rhs]
  split
  · exact hstep
  · -- A positive entry takes part in the ratio test; without one the right-hand side can only grow.
    rcases lt_or_ge 0 (T.entry i column) with hi' | hi'
    · have := (le_div_iff₀ hi').1 (hratio i hi hi')
      linarith
    · have := mul_nonpos_of_nonpos_of_nonneg hi' hstep
      have := hrhs i hi
      linarith

/-- A pivot on a positive entry with the least ratio keeps a tableau canonical. -/
theorem PivotOf.canonical (hT : T.Canonical) (hrow : row ≠ 0) (hcolumn : column < T.columns)
    (hpos : 0 < T.entry row column)
    (hratio : ∀ i ≠ 0, 0 < T.entry i column →
      T.rhs row / T.entry row column ≤ T.rhs i / T.entry i column) : U.Canonical :=
  ⟨h.tolerance.trans hT.tolerance_eq, h.zeroOrBasic hT.zero_or_basic hrow hcolumn,
    h.rhs_nonneg hT.rhs_nonneg hrow hpos hratio⟩

/-- The basic column of the pivot row is the pivot column, when no earlier column has the same
objective entry before the pivot. -/
theorem PivotOf.basicColumn_row (hT : T.Canonical) (hrow : row ≠ 0) (hcolumn : column < T.columns)
    (hfirst : ∀ j < column, T.entry 0 j ≠ T.entry 0 column) : U.basicColumn row = some column := by
  have hbasic := h.basicIn hrow hcolumn
  rw [basicColumn_eq_some_iff_of_exact (h.tolerance.trans hT.tolerance_eq)]
  refine ⟨hbasic, fun c hc hcb => hfirst c hc ?_⟩
  -- Two unit columns of one row are equal, and then they were equal before the pivot.
  have hequal := hcb.column_eq hbasic
  exact (h.equivalent hrow).symm.column_eq hcb.lt_columns hbasic.lt_columns hequal 0

/-- A pivot keeps the basic columns of the other rows. -/
theorem PivotOf.basicColumn_of_ne (hT : T.Canonical) (hrow : row ≠ 0) {i : ℕ} (hi : i ≠ row) :
    U.basicColumn i = T.basicColumn i := by
  have htol := h.tolerance.trans hT.tolerance_eq
  cases hT' : T.basicColumn i with
  | some c =>
    obtain ⟨hbasic, hfirst⟩ := (basicColumn_eq_some_iff_of_exact hT.tolerance_eq i c).1 hT'
    have hkept := h.basicIn_of_ne hi hbasic
    rw [basicColumn_eq_some_iff_of_exact htol]
    refine ⟨hkept, fun b hb hbb => hfirst b hb ?_⟩
    -- An earlier basic column would be equal to this one, before the pivot as after it.
    have hequal := hbb.column_eq hkept
    have hbefore := (h.equivalent hrow).symm.column_eq hbb.lt_columns hkept.lt_columns hequal
    refine ⟨lt_trans hb hbasic.lt_columns, hbasic.row_ne_zero, ?_, fun k hk => ?_⟩
    · rw [hbefore, hbasic.entry_eq_one]
    · rw [hbefore, hbasic.entry_eq_zero k hk]
  | none =>
    rw [← Option.not_isSome_iff_eq_none]
    intro hsome
    obtain ⟨c, hc⟩ := Option.isSome_iff_exists.1 hsome
    have hbasic := basicIn_of_basicColumn htol hc
    -- A row without a basic column is zero, and the pivot leaves it so.
    rcases hT.zero_or_basicColumn hbasic.row_ne_zero with hzero | ⟨d, hd⟩
    · exact not_basicIn_of_forall_entry_eq_zero (h.entry_eq_zero hzero) hbasic
    · rw [hT'] at hd
      exact absurd hd nofun

end Pivot

/-! ## Equal bases -/

/-- The vector with a one at `target` from which the number of each constraint row, of `n` rows in
all, is taken off at the column of the row. -/
def offset (n : ℕ) (column : ℕ → ℕ) (b : ℕ → ℚ) (target j : ℕ) : ℚ :=
  (if j = target then 1 else 0) - ∑ i ∈ Finset.Ico 1 n, if j = column i then b i else 0

/-- A row applied to a vector with one entry. -/
theorem sum_entry_mul_ite (T : Tableau ℚ) (k : ℕ) {c : ℕ} (hc : c ≤ T.columns) (a : ℚ) :
    ∑ j ∈ Finset.range (T.columns + 1), T.entry k j * (if j = c then a else 0) =
      T.entry k c * a := by
  simp only [mul_ite, mul_zero, Finset.sum_ite_eq', Finset.mem_range, Nat.lt_succ_iff, hc, if_true]

/-- When the column of each constraint row with a number is basic in it, a constraint row loses its
own number at an offset vector, and the objective row loses nothing. -/
theorem rowForm_offset (column : ℕ → ℕ) (b : ℕ → ℚ)
    (hb : ∀ i ∈ T.constraintRows, b i = 0 ∨ T.BasicIn i (column i)) {target : ℕ}
    (htarget : target ≤ T.columns) (k : ℕ) :
    T.rowForm k (offset T.matrix.height column b target) =
      T.entry k target - if k ∈ T.constraintRows then b k else 0 := by
  have hmem : ∀ i, i ∈ Finset.Ico 1 T.matrix.height ↔ i ∈ T.constraintRows := by
    intro i
    rw [Finset.mem_Ico, mem_constraintRows, Nat.one_le_iff_ne_zero]
  -- The column of a row meets that row only, in a one.
  have hpick : ∀ i ∈ Finset.Ico 1 T.matrix.height,
      ∑ j ∈ Finset.range (T.columns + 1), T.entry k j * (if j = column i then b i else 0) =
        if k = i then b i else 0 := by
    intro i hi
    rcases hb i ((hmem i).1 hi) with hzero | hbasic
    · simp only [hzero, ite_self, mul_zero, Finset.sum_const_zero]
    · rw [T.sum_entry_mul_ite k hbasic.lt_columns.le]
      split
      · rename_i hki
        rw [hki, hbasic.entry_eq_one, one_mul]
      · rename_i hki
        rw [hbasic.entry_eq_zero k hki, zero_mul]
  unfold rowForm offset
  simp only [mul_sub, Finset.mul_sum, Finset.sum_sub_distrib]
  rw [T.sum_entry_mul_ite k htarget, mul_one, Finset.sum_comm, Finset.sum_congr rfl hpick,
    Finset.sum_ite_eq]
  simp only [hmem]

/-- Equivalent tableaux are equal, entry by entry, when each constraint row is zero in both or has a
column that is basic in both. -/
theorem Equivalent.entry_eq (h : Equivalent T U) (column : ℕ → ℕ)
    (hrows : ∀ i ∈ T.constraintRows, ((∀ j, T.entry i j = 0) ∧ ∀ j, U.entry i j = 0) ∨
      (T.BasicIn i (column i) ∧ U.BasicIn i (column i))) (i j : ℕ) :
    U.entry i j = T.entry i j := by
  rcases lt_or_ge T.columns j with hj | hj
  · rw [U.entry_eq_zero_of_columns_lt i (by rw [h.columns]; exact hj),
      T.entry_eq_zero_of_columns_lt i hj]
  have hsame : ∀ k, k ∈ U.constraintRows ↔ k ∈ T.constraintRows := by
    intro k
    rw [mem_constraintRows, mem_constraintRows, h.height]
  -- The vector that has a one at `j` and takes off what the constraint rows of `T` have there.
  have hT := rowForm_offset column (T.entry · j)
    (fun k hk => (hrows k hk).imp (fun h => h.1 j) And.left) hj
  have hU := rowForm_offset column (T.entry · j)
    (fun k hk => (hrows k ((hsame k).1 hk)).imp (fun h => h.1 j) And.right)
    (by rwa [h.columns] : j ≤ U.columns)
  rw [h.height] at hU
  have hnot : ∀ k ≠ 0, k ∉ T.constraintRows → T.matrix.height ≤ k := by
    intro k hk hout
    by_contra hlt
    exact hout ((T.mem_constraintRows k).2 ⟨hk, not_le.1 hlt⟩)
  have hannihilates : T.Annihilates (offset T.matrix.height column (T.entry · j) j) := by
    intro k hk
    rw [hT]
    split
    · exact sub_self _
    · rename_i hout
      rw [T.entry_eq_zero_of_height_le (hnot k hk hout), sub_zero]
  -- All its constraint rows vanish in `T`, so they do in `U`, and the objective rows agree.
  by_cases hi : i ∈ T.constraintRows
  · have := (h.annihilates_iff _).2 hannihilates i ((T.mem_constraintRows i).1 hi).1
    rwa [hU, if_pos ((hsame i).2 hi), sub_eq_zero] at this
  by_cases hzero : i = 0
  · have := h.rowForm_zero _ hannihilates
    rwa [hT, hU, if_neg (by rwa [hsame, ← hzero]), if_neg (by rwa [← hzero]), sub_zero, sub_zero,
      ← hzero] at this
  · have hge := hnot i hzero hi
    rw [T.entry_eq_zero_of_height_le hge, U.entry_eq_zero_of_height_le (by rwa [h.height])]

/-- Equivalent canonical tableaux with the same basic columns have the same right-hand sides, that
of the objective included. -/
theorem Canonical.rhs_eq_of_basicColumn_eq (hT : T.Canonical) (hU : U.Canonical)
    (h : Equivalent T U) (hcolumn : ∀ i, T.basicColumn i = U.basicColumn i) (i : ℕ) :
    T.rhs i = U.rhs i := by
  have hentry := h.entry_eq (fun k => (T.basicColumn k).getD 0) fun k hk => by
    have hk0 := ((T.mem_constraintRows k).1 hk).1
    cases hc : T.basicColumn k with
    | none =>
      have hcU := (hcolumn k).symm.trans hc
      exact Or.inl ⟨(hT.zero_or_basicColumn hk0).resolve_right fun ⟨c, hc'⟩ => by simp [hc] at hc',
        (hU.zero_or_basicColumn hk0).resolve_right fun ⟨c, hc'⟩ => by simp [hcU] at hc'⟩
    | some c => exact Or.inr ⟨basicIn_of_basicColumn hT.tolerance_eq hc,
        basicIn_of_basicColumn hU.tolerance_eq ((hcolumn k).symm.trans hc)⟩
  unfold Tableau.rhs
  rw [h.columns, hentry]

end LinProg.Tableau
