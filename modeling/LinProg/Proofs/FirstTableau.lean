import LinProg.Proofs.Canonical
import LinProg.Proofs.StandardForm

/-!
# The first tableau of a model

`FirstOf` says what stands in the tableau that a model is written into: the negated coefficients of
the objective in row 0, and below it one row for each constraint, with the bounds as right-hand
sides. There is such a tableau unless the model has more variables than a vector can have entries
(`exists_tableau_eq_ok`, `tableau_of_oversized`).

For a model in standard form the equations of this tableau are the constraints
(`FirstOf.solves_iff`), and the objective row is the objective (`FirstOf.objectiveAt_eq`). When
each constraint has a unit column that the objective does not mention, the tableau is canonical. -/

namespace LinProg

/-- A traversal in which every member has a result collects the results. -/
theorem mapM_eq_ok_map {β γ ε : Type} {f : β → Except ε γ} {g : β → γ} {xs : List β}
    (h : ∀ x ∈ xs, f x = .ok (g x)) : xs.mapM f = .ok (xs.map g) := by
  induction xs with
  | nil => rfl
  | cons x xs ih =>
    have hrest := ih fun y hy => h y (by simp [hy])
    rw [List.mapM_cons, h x (by simp), hrest]
    rfl

/-- Computations that are the same on each member give the same list. -/
theorem mapM_congr_of_mem {β γ ε : Type} {f g : β → Except ε γ} {xs : List β}
    (h : ∀ x ∈ xs, f x = g x) : xs.mapM f = xs.mapM g := by
  induction xs with
  | nil => rfl
  | cons x xs ih =>
    obtain ⟨hx, hxs⟩ := List.forall_mem_cons.1 h
    rw [List.mapM_cons, List.mapM_cons, hx, ih hxs]

/-- The members of a computed list are results on the members of the list it is computed from. -/
theorem exists_of_mem_mapM {β γ ε : Type} {f : β → Except ε γ} {xs : List β} {ys : List γ}
    (h : xs.mapM f = .ok ys) : ∀ y ∈ ys, ∃ x ∈ xs, f x = .ok y := by
  induction xs generalizing ys with
  | nil =>
    cases h
    exact nofun
  | cons x xs ih =>
    rw [List.mapM_cons] at h
    obtain ⟨y, hx, h⟩ := (bind_eq_ok_iff _ _ _).1 h
    obtain ⟨rest, hxs, h⟩ := (bind_eq_ok_iff _ _ _).1 h
    cases h
    rw [List.forall_mem_cons]
    refine ⟨⟨x, List.mem_cons_self, hx⟩, fun z hz => ?_⟩
    obtain ⟨w, hw, hwz⟩ := ih hxs z hz
    exact ⟨w, List.mem_cons_of_mem x hw, hwz⟩

section Written

variable {α : Type} [Scalar α]

namespace Tableau

/-- `T` is the tableau that the model is written into. -/
structure FirstOf (T : Tableau α) (M : Model α) (o : Objective α) (tolerance : α) : Prop where
  /-- The columns are the variables of the model. -/
  model : T.model = M
  /-- The tolerance is as given. -/
  tolerance : T.tolerance = tolerance
  /-- There is a row for the objective and one for each constraint. -/
  height : T.matrix.height = M.constraints.length + 1
  /-- The first row holds the negated coefficients of the objective. -/
  entry_zero : ∀ j < M.vars.length, T.entry 0 j = -o.expression.coefficientAt j
  /-- The objective value is zero. -/
  rhs_zero : T.rhs 0 = 0
  /-- The row of a constraint holds its coefficients. -/
  entry_succ : ∀ (k : ℕ) (c : Constraint α), M.constraints[k]? = some c → ∀ j < M.vars.length,
    T.entry (k + 1) j = c.expression.coefficientAt j
  /-- The right-hand side of the row of a constraint is its bound. -/
  rhs_succ : ∀ (k : ℕ) (c : Constraint α), M.constraints[k]? = some c → T.rhs (k + 1) = c.bound

end Tableau

namespace Model

variable {M : Model α} {o : Objective α}

/-- The objective row of a model whose variables fit. -/
theorem objectiveRow_eq_ok (ho : M.objective = some o) (hwithin : o.expression.Within M.vars.length)
    (hmax : M.vars.length ≤ Expression.maxDenseLength) :
    M.objectiveRow =
      .ok (((List.range M.vars.length).map fun j => -o.expression.coefficientAt j) ++ [0]) := by
  have hdense := (Expression.coefficients_eq_ok_iff o.expression M.vars.length _).2
    ⟨hmax, hwithin, rfl⟩
  unfold objectiveRow
  simp only [ho, hdense, bind, Except.bind, pure, Except.pure, List.map_map]
  rfl

/-- The row of a constraint whose variables fit. -/
theorem constraintRow_eq_ok {c : Constraint α} (hwithin : c.expression.Within M.vars.length)
    (hmax : M.vars.length ≤ Expression.maxDenseLength) :
    M.constraintRow c =
      .ok ((List.range M.vars.length).map c.expression.coefficientAt ++ [c.bound]) := by
  have hdense := (Expression.coefficients_eq_ok_iff c.expression M.vars.length _).2
    ⟨hmax, hwithin, rfl⟩
  unfold constraintRow
  simp only [hdense, bind, Except.bind, pure, Except.pure]

/-- The entries of a row that is a vector and one further number. -/
theorem entry_map_range_append (f : ℕ → α) (n : ℕ) (b : α) :
    (∀ j < n, Row.entry ((List.range n).map f ++ [b]) j = f j) ∧
      Row.entry ((List.range n).map f ++ [b]) n = b := by
  constructor
  · intro j hj
    rw [Row.entry_append, if_pos (by simpa using hj), Row.entry_of_lt (by simpa using hj)]
    simp
  · rw [Row.entry_append, if_neg (by simp)]
    simp [Row.entry]

/-- A model whose variables can be addressed has a first tableau. -/
theorem exists_tableau_eq_ok (hM : M.Scoped) (ho : M.objective = some o)
    (hmax : M.vars.length ≤ Expression.maxDenseLength) (tolerance : α) :
    ∃ T, M.tableau tolerance = .ok T ∧ T.FirstOf M o tolerance := by
  let first := ((List.range M.vars.length).map fun j => -o.expression.coefficientAt j) ++ [(0 : α)]
  let rowOf : Constraint α → List α := fun c =>
    (List.range M.vars.length).map c.expression.coefficientAt ++ [c.bound]
  have hfirst : M.objectiveRow = .ok first := objectiveRow_eq_ok ho (hM.objective o ho) hmax
  have hrest : M.constraints.mapM M.constraintRow = .ok (M.constraints.map rowOf) :=
    mapM_eq_ok_map fun c hc => constraintRow_eq_ok (hM.constraints c hc) hmax
  -- Every row has an entry for each variable and one for the right-hand side.
  have hwidth : DenseMatrix.widthOf (first :: M.constraints.map rowOf) = M.vars.length + 1 := by
    simp [DenseMatrix.widthOf, first]
  have hrows : ∀ row ∈ first :: M.constraints.map rowOf,
      row.length = DenseMatrix.widthOf (first :: M.constraints.map rowOf) := by
    rw [hwidth]
    intro row hrow
    rcases List.mem_cons.1 hrow with rfl | hrow
    · simp [first]
    · obtain ⟨c, -, rfl⟩ := List.mem_map.1 hrow
      simp [rowOf]
  -- The objective row comes first, so constraint `k` has row `k + 1`.
  have hrow : ∀ (k : ℕ) (c : Constraint α), M.constraints[k]? = some c →
      ((first :: M.constraints.map rowOf)[k + 1]?).getD [] = rowOf c := by
    intro k c hc
    simp [hc]
  refine ⟨⟨M, tolerance, DenseMatrix.castWidth ⟨_, hrows⟩ hwidth⟩, ?_, rfl, rfl, ?_, ?_, ?_, ?_, ?_⟩
  · unfold Model.tableau
    simp only [hfirst, hrest, bind, Except.bind, DenseMatrix.ofRows, dif_pos hrows]
    exact dif_pos hwidth
  · simp [DenseMatrix.castWidth, DenseMatrix.height]
  · exact (entry_map_range_append _ _ 0).1
  · exact (entry_map_range_append (fun j => -o.expression.coefficientAt j) _ 0).2
  · intro k c hc j hj
    change Row.entry (((first :: M.constraints.map rowOf)[k + 1]?).getD []) j = _
    rw [hrow k c hc]
    exact (entry_map_range_append _ _ _).1 j hj
  · intro k c hc
    change Row.entry (((first :: M.constraints.map rowOf)[k + 1]?).getD []) M.vars.length = _
    rw [hrow k c hc]
    exact (entry_map_range_append _ _ _).2

/-- A model with more variables than can be addressed has no first tableau. -/
theorem tableau_of_oversized (ho : M.objective = some o)
    (hmax : Expression.maxDenseLength < M.vars.length) (tolerance : α) :
    M.tableau tolerance = .error (.oversizedVector M.vars.length) := by
  unfold Model.tableau objectiveRow
  simp only [ho, Expression.coefficients_of_oversized o.expression hmax, bind, Except.bind]

/-- When there is a first tableau, the variables can be addressed. -/
theorem le_maxDenseLength_of_tableau_eq_ok (ho : M.objective = some o) {tolerance : α}
    {T : Tableau α} (h : M.tableau tolerance = .ok T) :
    M.vars.length ≤ Expression.maxDenseLength := by
  by_contra hmax
  rw [tableau_of_oversized ho (not_le.1 hmax)] at h
  exact absurd h nofun

/-- A tableau that the model is written into is the first one. -/
theorem firstOf_of_eq_ok (hM : M.Scoped) (ho : M.objective = some o) {tolerance : α}
    {T : Tableau α} (h : M.tableau tolerance = .ok T) : T.FirstOf M o tolerance := by
  have hmax := le_maxDenseLength_of_tableau_eq_ok ho h
  obtain ⟨U, hU, hfirst⟩ := exists_tableau_eq_ok hM ho hmax tolerance
  rw [h] at hU
  cases hU
  exact hfirst

end Model

namespace Tableau.FirstOf

variable {T : Tableau α} {M : Model α} {o : Objective α} {tolerance : α}

/-- The columns are the variables of the model. -/
theorem columns (h : T.FirstOf M o tolerance) : T.columns = M.vars.length :=
  columns_eq_of_model_eq h.model

/-- A constraint row is the row of a constraint, or lies below the last one. -/
theorem row_cases (h : T.FirstOf M o tolerance) {i : ℕ} (hi : i ≠ 0) :
    (∃ k c, M.constraints[k]? = some c ∧ i = k + 1) ∨ T.matrix.height ≤ i := by
  rcases lt_or_ge (i - 1) M.constraints.length with hlt | hge
  · exact Or.inl ⟨i - 1, M.constraints[i - 1], List.getElem?_eq_getElem hlt, by omega⟩
  · refine Or.inr ?_
    rw [h.height]
    omega

/-- A unit column of the model is a unit column of the constraint rows. -/
theorem entry_unitColumn (h : T.FirstOf M o tolerance) {k n : ℕ} (hn : M.UnitColumn k n)
    (hk : k < M.constraints.length) : ∀ i ≠ 0, T.entry i n = if i = k + 1 then 1 else 0 := by
  intro i hi
  rcases h.row_cases hi with ⟨l, c, hc, rfl⟩ | hbelow
  · rw [h.entry_succ l c hc n hn.lt_width, hn.coefficientAt l c hc]
    simp only [Nat.add_right_cancel_iff]
  · have hne : i ≠ k + 1 := by
      rw [h.height] at hbelow
      omega
    rw [T.entry_eq_zero_of_height_le hbelow, if_neg hne]

end Tableau.FirstOf

end Written

/-! ## The equations and the objective -/

namespace Tableau

/-- A first row with the negated coefficients of an expression, and zero as objective value, has the
expression as its objective. -/
theorem objectiveAt_eq_linear {T : Tableau ℚ} {e : Expression ℚ} {width : ℕ}
    (hcolumns : T.columns = width) (hentry : ∀ j < width, T.entry 0 j = -e.coefficientAt j)
    (hrhs : T.rhs 0 = 0) (y : ℕ → ℚ) : T.objectiveAt y = e.linear width y := by
  have hrow : T.rowValue 0 y = -e.linear width y := by
    unfold rowValue Expression.linear
    rw [hcolumns, ← Finset.sum_neg_distrib]
    refine Finset.sum_congr rfl fun j hj => ?_
    rw [hentry j (Finset.mem_range.1 hj), neg_mul]
  calc T.objectiveAt y = T.rhs 0 - T.rowValue 0 y := rfl
    _ = e.linear width y := by rw [hrow, hrhs, zero_sub, neg_neg]

end Tableau

namespace Tableau.FirstOf

variable {T : Tableau ℚ} {M : Model ℚ} {o : Objective ℚ} {tolerance : ℚ}

/-- The row of a constraint at a point is the linear part of the constraint. -/
theorem rowValue_succ (h : T.FirstOf M o tolerance) {k : ℕ} {c : Constraint ℚ}
    (hc : M.constraints[k]? = some c) (y : ℕ → ℚ) :
    T.rowValue (k + 1) y = c.expression.linear M.vars.length y := by
  unfold rowValue Expression.linear
  rw [h.columns]
  refine Finset.sum_congr rfl fun j hj => ?_
  rw [h.entry_succ k c hc j (Finset.mem_range.1 hj)]

/-- The objective of the first tableau is that of the model. -/
theorem objectiveAt_eq (h : T.FirstOf M o tolerance) (y : ℕ → ℚ) :
    T.objectiveAt y = o.expression.linear M.vars.length y :=
  objectiveAt_eq_linear h.columns h.entry_zero h.rhs_zero y

/-- The equations of the first tableau are the constraints of a model in standard form. -/
theorem solves_iff (h : T.FirstOf M o tolerance) (hM : M.IsStandard) (y : ℕ → ℚ) :
    T.Solves y ↔ ∀ c ∈ M.constraints, c.Holds M.vars.length y := by
  have hholds : ∀ (k : ℕ) (c : Constraint ℚ), M.constraints[k]? = some c →
      (c.Holds M.vars.length y ↔ T.rowValue (k + 1) y = T.rhs (k + 1)) := by
    intro k c hc
    have hmem := List.mem_of_getElem? hc
    rw [h.rowValue_succ hc, h.rhs_succ k c hc]
    unfold Constraint.Holds
    rw [hM.relation_eq c hmem, hM.constant_eq c hmem]
    simp only [add_zero]
  constructor
  · intro hy c hmem
    obtain ⟨k, hc⟩ := List.getElem?_of_mem hmem
    exact (hholds k c hc).2 (hy (k + 1) (Nat.succ_ne_zero k))
  · intro hy i hi
    rcases h.row_cases hi with ⟨k, c, hc, rfl⟩ | hbelow
    · exact (hholds k c hc).1 (hy c (List.mem_of_getElem? hc))
    · -- Below the last row both sides are zero.
      have hzero := T.entry_eq_zero_of_height_le hbelow
      unfold rowValue rhs
      rw [hzero, Finset.sum_eq_zero fun j _ => by rw [hzero, zero_mul]]

/-- The feasible points of a model in standard form are the solutions of the first tableau without
negative values. -/
theorem feasible_iff (h : T.FirstOf M o tolerance) (hM : M.IsStandard) (y : ℕ → ℚ) :
    M.Feasible y ↔ (∀ j < T.columns, 0 ≤ y j) ∧ T.Solves y := by
  rw [h.columns, h.solves_iff hM]
  rfl

/-- No right-hand side is negative. -/
theorem rhs_nonneg (h : T.FirstOf M o tolerance) (hM : M.IsStandard) : ∀ i ≠ 0, 0 ≤ T.rhs i := by
  intro i hi
  rcases h.row_cases hi with ⟨k, c, hc, rfl⟩ | hbelow
  · rw [h.rhs_succ k c hc]
    exact hM.bound_nonneg c (List.mem_of_getElem? hc)
  · exact (T.entry_eq_zero_of_height_le hbelow _).ge

/-- The first tableau is canonical when each constraint has a unit column that the objective does
not mention. -/
theorem canonical (h : T.FirstOf M o 0) (hM : M.IsStandard)
    (hunit : ∀ k < M.constraints.length, ∃ n, M.UnitColumn k n ∧
      o.expression.coefficientAt n = 0) : T.Canonical := by
  refine ⟨h.tolerance, fun i hi => ?_, h.rhs_nonneg hM⟩
  rcases h.row_cases hi with ⟨k, c, hc, rfl⟩ | hbelow
  · have hk := (List.getElem?_eq_some_iff.1 hc).1
    obtain ⟨n, hn, hprice⟩ := hunit k hk
    have hentry := h.entry_unitColumn hn hk
    refine Or.inr ⟨n, by rw [h.columns]; exact hn.lt_width, hi, ?_, fun l hl => ?_⟩
    · rw [hentry _ hi, if_pos rfl]
    · -- The objective does not mention the column, and no other constraint does.
      by_cases hl0 : l = 0
      · rw [hl0, h.entry_zero n hn.lt_width, hprice, neg_zero]
      · rw [hentry l hl0, if_neg hl]
  · exact Or.inl (T.entry_eq_zero_of_height_le hbelow)

end Tableau.FirstOf

end LinProg
