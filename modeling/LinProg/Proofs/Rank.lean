import LinProg.Proofs.FirstTableau

/-!
# The rank of a canonical tableau

Each constraint row of a canonical tableau is zero or has a unit column, so the rank of its
coefficients is the number of the rows that are not zero (`Canonical.rank_coefficientMatrix`). A
system of equations that has the same solutions has the same rank, when there are any
(`rank_eq_of_solves_iff`): the differences of its solutions are then the vectors that its
coefficients take to zero. -/

namespace LinProg

/-! ## Matrices with the same kernel, and with unit columns -/

/-- Matrices whose rows vanish at the same vectors have the same rank. -/
theorem rank_eq_of_sum_eq_zero_iff {m k n l : ℕ} (hwidth : n = l) {A : Matrix (Fin m) (Fin n) ℚ}
    {B : Matrix (Fin k) (Fin l) ℚ}
    (h : ∀ y : ℕ → ℚ, (∀ i, ∑ j : Fin n, A i j * y j = 0) ↔ ∀ i, ∑ j : Fin l, B i j * y j = 0) :
    A.rank = B.rank := by
  subst hwidth
  have hker : LinearMap.ker A.mulVecLin = LinearMap.ker B.mulVecLin := by
    ext v
    let y : ℕ → ℚ := fun j => if hj : j < n then v ⟨j, hj⟩ else 0
    have hv : ∀ j : Fin n, v j = y j := fun j => by simp [y]
    have hzero : ∀ {p : ℕ} (C : Matrix (Fin p) (Fin n) ℚ),
        v ∈ LinearMap.ker C.mulVecLin ↔ ∀ i, ∑ j, C i j * y j = 0 := by
      intro p C
      rw [LinearMap.mem_ker, Matrix.mulVecLin_apply, funext_iff]
      refine forall_congr' fun i => ?_
      show ∑ j, C i j * v j = 0 ↔ _
      simp only [hv]
    rw [hzero, hzero]
    exact h y
  have hA := A.mulVecLin.finrank_range_add_finrank_ker
  have hB := B.mulVecLin.finrank_range_add_finrank_ker
  rw [← hB, hker] at hA
  exact Nat.add_right_cancel hA

/-- When the rows outside a set are zero and those in the set have unit columns, the rank is the
size of the set. -/
theorem rank_eq_card_of_unit_columns {m n : ℕ} (A : Matrix (Fin m) (Fin n) ℚ)
    (rows : Finset (Fin m))
    (hzero : ∀ i ∉ rows, ∀ j, A i j = 0) (column : rows → Fin n)
    (hunit : ∀ (i : rows) (k : Fin m), A k (column i) = if k = i then 1 else 0) :
    A.rank = rows.card := by
  apply le_antisymm
  · refine A.rank_le_card_of_support_subset rows fun i hi => ?_
    by_contra hnot
    exact hi (funext (hzero i hnot))
  · -- The unit columns of the rows make up an identity matrix.
    have hone : A.submatrix (fun i : rows => (i : Fin m)) column = 1 := by
      ext k i
      rw [Matrix.submatrix_apply, hunit, Matrix.one_apply]
      simp only [Subtype.ext_iff]
    calc rows.card = Fintype.card rows := (Fintype.card_coe rows).symm
      _ = (A.submatrix (fun i : rows => (i : Fin m)) column).rank := by
        rw [hone, Matrix.rank_one]
      _ ≤ A.rank := A.rank_submatrix_le _ column

namespace Tableau

variable {T : Tableau ℚ}

/-! ## The rank of a tableau -/

/-- The coefficients of the constraint rows. -/
def coefficientMatrix (T : Tableau ℚ) : Matrix (Fin (T.matrix.height - 1)) (Fin T.columns) ℚ :=
  Matrix.of fun i j => T.entry (i + 1) j

/-- The constraint rows with an entry or a right-hand side that is not zero. -/
def nonzeroRows (T : Tableau ℚ) : List ℕ :=
  T.constraintRows.filter fun i => (List.range (T.columns + 1)).any fun j => T.entry i j ≠ 0

/-- A constraint row counts when some entry of it is not zero. -/
theorem mem_nonzeroRows_iff (T : Tableau ℚ) (i : ℕ) :
    i ∈ T.nonzeroRows ↔ i ∈ T.constraintRows ∧ ∃ j, T.entry i j ≠ 0 := by
  unfold nonzeroRows
  rw [List.mem_filter]
  refine and_congr_right fun _ => ?_
  simp only [List.any_eq_true, List.mem_range, decide_eq_true_eq]
  constructor
  · rintro ⟨j, -, hne⟩
    exact ⟨j, hne⟩
  · rintro ⟨j, hne⟩
    refine ⟨j, ?_, hne⟩
    by_contra hj
    exact hne (T.entry_eq_zero_of_columns_lt i (by omega))

/-- The rows that are not zero, by their places among the constraint rows. -/
theorem card_nonzeroRows (T : Tableau ℚ) :
    (Finset.univ.filter fun i : Fin (T.matrix.height - 1) => (i : ℕ) + 1 ∈ T.nonzeroRows).card =
      T.nonzeroRows.length := by
  have hnodup : T.nonzeroRows.Nodup := List.Nodup.filter _ List.nodup_range'
  rw [← List.toFinset_card_of_nodup hnodup]
  refine Finset.card_bij (fun i _ => (i : ℕ) + 1) (fun i hi => ?_) (fun i _ k _ hik => ?_)
    fun row hrow => ?_
  · simpa using hi
  · exact Fin.ext (Nat.succ_injective hik)
  · have hmem := List.mem_toFinset.1 hrow
    obtain ⟨hne, hlt⟩ :=
      (T.mem_constraintRows row).1 ((T.mem_nonzeroRows_iff row).1 hmem).1
    have hback : row - 1 + 1 = row := by omega
    refine ⟨⟨row - 1, by omega⟩, ?_, hback⟩
    simpa [hback] using hmem

/-- The rank of a canonical tableau is the number of its rows that are not zero. -/
theorem Canonical.rank_coefficientMatrix (h : T.Canonical) :
    T.coefficientMatrix.rank = T.nonzeroRows.length := by
  let rows := Finset.univ.filter fun i : Fin (T.matrix.height - 1) => (i : ℕ) + 1 ∈ T.nonzeroRows
  -- A row that is not zero has a basic column.
  have hbasic : ∀ i : rows, ∃ c : Fin T.columns, T.BasicIn (i + 1) c := by
    rintro ⟨i, hi⟩
    have hmem : (i : ℕ) + 1 ∈ T.nonzeroRows := (Finset.mem_filter.1 hi).2
    obtain ⟨-, j, hne⟩ := (T.mem_nonzeroRows_iff _).1 hmem
    rcases h.zero_or_basic _ (Nat.succ_ne_zero i) with hzero | ⟨c, hc⟩
    · exact absurd (hzero j) hne
    · exact ⟨⟨c, hc.lt_columns⟩, hc⟩
  choose column hcolumn using hbasic
  rw [← T.card_nonzeroRows]
  refine rank_eq_card_of_unit_columns T.coefficientMatrix rows (fun i hi j => ?_) column
    fun i k => ?_
  · have hrow : (i : ℕ) + 1 ∈ T.constraintRows :=
      (T.mem_constraintRows _).2 ⟨Nat.succ_ne_zero i, by omega⟩
    have hnot : (i : ℕ) + 1 ∉ T.nonzeroRows := by simpa [rows] using hi
    show T.entry (i + 1) j = 0
    by_contra hne
    exact hnot ((T.mem_nonzeroRows_iff _).2 ⟨hrow, j, hne⟩)
  · show T.entry (k + 1) (column i) = _
    split
    · rename_i hki
      rw [hki, (hcolumn i).entry_eq_one]
    · rename_i hki
      refine (hcolumn i).entry_eq_zero _ fun heq => hki (Fin.ext ?_)
      omega

end Tableau

/-! ## The rank of a model -/

/-- The coefficients of the constraints of a model. -/
def Model.coefficientMatrix (M : Model ℚ) :
    Matrix (Fin M.constraints.length) (Fin M.vars.length) ℚ :=
  Matrix.of fun i j => M.constraints[i].expression.coefficientAt j

/-- A tableau whose solutions are those of a model of equalities has the same rank, when there are
any. -/
theorem rank_eq_of_solves_iff {T : Tableau ℚ} {M : Model ℚ} (hM : M.IsStandard)
    (hcolumns : T.columns = M.vars.length) {x : ℕ → ℚ} (hx : T.Solves x)
    (h : ∀ y, T.Solves y ↔ ∀ c ∈ M.constraints, c.Holds M.vars.length y) :
    T.coefficientMatrix.rank = M.coefficientMatrix.rank := by
  have hequation : ∀ c ∈ M.constraints, ∀ y, c.Holds M.vars.length y ↔
      c.expression.linear M.vars.length y = c.bound := by
    intro c hc y
    unfold Constraint.Holds
    rw [hM.relation_eq c hc, hM.constant_eq c hc]
    simp only [add_zero]
  -- A vector that both take to zero leads from the solution to another one, and back.
  have hmove : ∀ d : ℕ → ℚ, (∀ i ≠ 0, T.rowValue i d = 0) ↔
      ∀ c ∈ M.constraints, c.expression.linear M.vars.length d = 0 := by
    intro d
    have hrow : (∀ i ≠ 0, T.rowValue i d = 0) ↔ T.Solves fun j => x j + 1 * d j := by
      refine forall₂_congr fun i hi => ?_
      rw [T.rowValue_add_mul, hx i hi, one_mul, add_eq_left]
    have hlinear : ∀ c ∈ M.constraints, c.expression.linear M.vars.length d = 0 ↔
        c.Holds M.vars.length fun j => x j + 1 * d j := by
      intro c hc
      have hsum : c.expression.linear M.vars.length (fun j => x j + 1 * d j) =
          c.expression.linear M.vars.length x + c.expression.linear M.vars.length d := by
        unfold Expression.linear
        rw [← Finset.sum_add_distrib]
        exact Finset.sum_congr rfl fun j _ => by ring
      rw [hequation c hc, hsum, (hequation c hc x).1 ((h x).1 hx c hc), add_eq_left]
    rw [hrow, h]
    exact forall₂_congr fun c hc => (hlinear c hc).symm
  refine rank_eq_of_sum_eq_zero_iff hcolumns fun d => ?_
  have hT : (∀ i, ∑ j : Fin T.columns, T.coefficientMatrix i j * d j = 0) ↔
      ∀ i ≠ 0, T.rowValue i d = 0 := by
    have hsum : ∀ i : Fin (T.matrix.height - 1),
        ∑ j : Fin T.columns, T.coefficientMatrix i j * d j = T.rowValue (i + 1) d := by
      intro i
      exact (Finset.sum_range fun j => T.entry (i + 1) j * d j).symm
    simp only [hsum]
    constructor
    · intro hall i hi
      rcases lt_or_ge i T.matrix.height with hlt | hbelow
      · have hrow := hall ⟨i - 1, by omega⟩
        rwa [Nat.sub_add_cancel (Nat.one_le_iff_ne_zero.2 hi)] at hrow
      · exact Finset.sum_eq_zero fun j _ => by rw [T.entry_eq_zero_of_height_le hbelow, zero_mul]
    · exact fun hall i => hall _ (Nat.succ_ne_zero i)
  have hM' : (∀ i, ∑ j : Fin M.vars.length, M.coefficientMatrix i j * d j = 0) ↔
      ∀ c ∈ M.constraints, c.expression.linear M.vars.length d = 0 := by
    rw [List.forall_mem_iff_forall_getElem, Fin.forall_iff]
    refine forall₂_congr fun i hi => ?_
    have hsum : M.constraints[i].expression.linear M.vars.length d =
        ∑ j : Fin M.vars.length, M.coefficientMatrix ⟨i, hi⟩ j * d j :=
      Finset.sum_range fun j => M.constraints[i].expression.coefficientAt j * d j
    rw [hsum]
  rw [hT, hM', hmove]

end LinProg
