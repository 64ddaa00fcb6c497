import LinProg.Model
import LinProg.Proofs.ExactScalar

/-!
# What a model asks for

The meaning of expressions, constraints and models over exact numbers, apart from vectors and their
lengths. A point is a function from variable indices to values. `Expression.linear` is the sum of
the coefficients times the values, `Constraint.Holds` the condition, and `Model.Feasible` says that
a point is non-negative and meets every condition.

`evaluate_eq_ok_iff`, `isSatisfied_zero_iff`, and `isSatisfiedBy_zero_iff` tie the three to the
computed values and tests, which also fail where a variable does not fit into the vector. The tests
allow for a tolerance, which is one on the slacks (`Constraint.SatisfiedWithin`). -/

namespace LinProg

namespace Expression

section Coefficients

variable {α : Type} [Scalar α]

/-- The coefficient at an index in the vector of coefficients: that of the last term with the
index, zero when there is none. -/
def coefficientAt (e : Expression α) (j : ℕ) : α :=
  e.terms.foldl (fun a t => if t.var.index = j then t.coefficient else a) 0

/-- Every variable fits into a vector of the given length. -/
def Within (e : Expression α) (width : ℕ) : Prop :=
  ∀ t ∈ e.terms, t.var.index < width

omit [Scalar α] in
/-- An expression that fits into a vector fits into a longer one. -/
theorem Within.mono {e : Expression α} {n k : ℕ} (h : e.Within n) (hnk : n ≤ k) : e.Within k :=
  fun t ht => lt_of_lt_of_le (h t ht) hnk

/-- No coefficient stands at an index that no term has. -/
theorem coefficientAt_of_ne {e : Expression α} {j : ℕ} (h : ∀ t ∈ e.terms, t.var.index ≠ j) :
    e.coefficientAt j = 0 := by
  have hkeep : ∀ (terms : List (Term α)) (a : α), (∀ t ∈ terms, t.var.index ≠ j) →
      terms.foldl (fun a t => if t.var.index = j then t.coefficient else a) a = a := by
    intro terms
    induction terms with
    | nil => intro a _; rfl
    | cons t terms ih =>
      intro a h
      rw [List.foldl_cons, if_neg (h t (by simp))]
      exact ih a fun s hs => h s (by simp [hs])
  exact hkeep e.terms 0 h

/-- Beyond the width of an expression its coefficients are zero. -/
theorem Within.coefficientAt_of_le {e : Expression α} {n j : ℕ} (h : e.Within n) (hj : n ≤ j) :
    e.coefficientAt j = 0 :=
  coefficientAt_of_ne fun t ht => by have := h t ht; omega

/-- Writing terms into a row, one after the other, changes an entry to the last coefficient with
its index. -/
theorem entry_foldl_set (terms : List (Term α)) (row : List α)
    (h : ∀ t ∈ terms, t.var.index < row.length) (j : ℕ) :
    Row.entry (terms.foldl (fun dense t => dense.set t.var.index t.coefficient) row) j =
      terms.foldl (fun a t => if t.var.index = j then t.coefficient else a) (Row.entry row j) := by
  induction terms generalizing row with
  | nil => rfl
  | cons t terms ih =>
    rw [List.foldl_cons, List.foldl_cons, ih _ (fun s hs => by simpa using h s (by simp [hs])),
      Row.entry_set _ (h t (by simp))]
    simp only [eq_comm]

omit [Scalar α] in
/-- Writing terms into a row keeps its length. -/
theorem length_foldl_set (terms : List (Term α)) (row : List α) :
    (terms.foldl (fun dense t => dense.set t.var.index t.coefficient) row).length = row.length := by
  induction terms generalizing row with
  | nil => rfl
  | cons t terms ih => rw [List.foldl_cons, ih, List.length_set]

/-- The vector of coefficients exists when it can be addressed and the variables fit into it, and
then it holds the coefficient of each index. -/
theorem coefficients_eq_ok_iff (e : Expression α) (n : ℕ) (dense : List α) :
    e.coefficients n = .ok dense ↔
      n ≤ maxDenseLength ∧ e.Within n ∧ dense = (List.range n).map e.coefficientAt := by
  -- Writing the terms into zeros leaves at each place the coefficient of its index.
  have hentries : e.Within n →
      e.terms.foldl (fun dense t => dense.set t.var.index t.coefficient) (List.replicate n 0) =
        (List.range n).map e.coefficientAt := by
    intro hw
    refine List.ext_getElem (by simp [length_foldl_set]) fun j hj _ => ?_
    have hjn : j < n := by simpa [length_foldl_set] using hj
    have h := entry_foldl_set e.terms (List.replicate n (0 : α)) (by simpa [Within] using hw) j
    rw [Row.entry_of_lt hj, Row.entry_of_lt (by simpa using hjn)] at h
    simpa [coefficientAt] using h
  unfold coefficients
  by_cases hmax : maxDenseLength < n
  · rw [if_pos hmax]
    exact ⟨nofun, fun h => absurd h.1 (not_le.2 hmax)⟩
  · rw [if_neg hmax]
    -- The vector is written unless some variable lies beyond it.
    cases hfind : e.terms.find? (fun t => decide (n ≤ t.var.index)) with
    | some t =>
      have hle : n ≤ t.var.index := by simpa using List.find?_some hfind
      refine ⟨nofun, fun h => ?_⟩
      have := h.2.1 t (List.mem_of_find?_eq_some hfind)
      omega
    | none =>
      have hw : e.Within n := by
        intro t ht
        have := List.find?_eq_none.1 hfind t ht
        simpa using this
      simp only [Except.ok.injEq]
      rw [hentries hw]
      exact ⟨fun h => ⟨not_lt.1 hmax, hw, h.symm⟩, fun h => h.2.2.symm⟩

/-- A vector too long to be addressed is refused before anything else. -/
theorem coefficients_of_oversized (e : Expression α) {n : ℕ} (h : maxDenseLength < n) :
    e.coefficients n = .error (.oversizedVector n) :=
  if_pos h

/-- The variables of the negated expression are the same. -/
theorem within_negate (e : Expression α) (n : ℕ) : e.negate.Within n ↔ e.Within n := by
  simp [Within, negate, scale]

/-- A term for a new variable comes to the end. -/
theorem terms_push_of_ne {e : Expression α} {v : Variable}
    (h : ∀ t ∈ e.terms, t.var.index ≠ v.index) (c : α) :
    (e.push c v).terms = e.terms ++ [⟨c, v⟩] := by
  have hnone : e.position? v.index = none := by
    unfold position?
    rw [List.findIdx?_eq_none_iff]
    intro t ht
    simpa using h t ht
  simp only [push, hnone]

/-- Adding a term for a new variable sets the coefficient of that variable. -/
theorem coefficientAt_push {e : Expression α} {v : Variable}
    (h : ∀ t ∈ e.terms, t.var.index ≠ v.index) (c : α) (j : ℕ) :
    (e.push c v).coefficientAt j = if j = v.index then c else e.coefficientAt j := by
  unfold coefficientAt
  rw [terms_push_of_ne h, List.foldl_append, List.foldl_cons, List.foldl_nil]
  simp only [eq_comm]

/-- Adding a term keeps the constant. -/
theorem constant_push (e : Expression α) (c : α) (v : Variable) :
    (e.push c v).constant = e.constant := by
  unfold push
  split <;> rfl

end Coefficients

/-- The sum of coefficients times values, over the variables below a width. -/
def linear (e : Expression ℚ) (width : ℕ) (x : ℕ → ℚ) : ℚ :=
  ∑ j ∈ Finset.range width, e.coefficientAt j * x j

/-- The value of an expression is the sum of its coefficients times the values, and its constant. It
exists when the variables fit among the values. -/
theorem evaluate_eq_ok_iff (e : Expression ℚ) (values : List ℚ) (r : ℚ) :
    e.evaluate values = .ok r ↔
      values.length ≤ maxDenseLength ∧ e.Within values.length ∧
        r = e.linear values.length (Row.entry values) + e.constant := by
  unfold evaluate
  cases hc : e.coefficients values.length with
  | error fault =>
    refine ⟨nofun, fun h => ?_⟩
    have := (coefficients_eq_ok_iff e values.length _).2 ⟨h.1, h.2.1, rfl⟩
    rw [hc] at this
    exact absurd this nofun
  | ok dense =>
    obtain ⟨hmax, hw, rfl⟩ := (coefficients_eq_ok_iff e values.length dense).1 hc
    -- The dot product with the vector of coefficients is the linear part.
    have hlinear : ∑ j ∈ Finset.range values.length,
        Row.entry ((List.range values.length).map e.coefficientAt) j * Row.entry values j =
          e.linear values.length (Row.entry values) := by
      refine Finset.sum_congr rfl fun j hj => ?_
      rw [Row.entry_map_range, if_pos (Finset.mem_range.1 hj)]
    have hdot := (dot_eq_ok_iff ((List.range values.length).map e.coefficientAt) values _).2
      ⟨by simp, rfl⟩
    rw [hlinear] at hdot
    simp only [bind, Except.bind, hdot, pure, Except.pure, Except.ok.injEq]
    exact ⟨fun h => ⟨hmax, hw, h.symm⟩, fun h => h.2.2.symm⟩

/-- Only the values below the width matter. -/
theorem linear_congr (e : Expression ℚ) {width : ℕ} {x y : ℕ → ℚ} (h : ∀ j < width, x j = y j) :
    e.linear width x = e.linear width y :=
  Finset.sum_congr rfl fun j hj => by rw [h j (Finset.mem_range.1 hj)]

/-- Beyond the variables of an expression the width does not matter. -/
theorem Within.linear_eq {e : Expression ℚ} {n k : ℕ} (h : e.Within n) (hnk : n ≤ k) (x : ℕ → ℚ) :
    e.linear k x = e.linear n x :=
  sum_range_eq_sum_range hnk fun j hj _ => by rw [h.coefficientAt_of_le hj, zero_mul]

/-- A term for a new variable adds its multiple of the value. -/
theorem linear_push {e : Expression ℚ} {v : Variable} {width : ℕ}
    (h : ∀ t ∈ e.terms, t.var.index ≠ v.index) (hv : v.index < width) (a : ℚ) (x : ℕ → ℚ) :
    (e.push a v).linear width x = e.linear width x + a * x v.index := by
  have hold : e.coefficientAt v.index = 0 := coefficientAt_of_ne h
  have hterm : ∀ j, (e.push a v).coefficientAt j * x j =
      e.coefficientAt j * x j + if j = v.index then a * x j else 0 := by
    intro j
    rw [coefficientAt_push h]
    split
    · rename_i hj
      rw [hj, hold]
      ring
    · rw [add_zero]
  unfold linear
  simp only [hterm, Finset.sum_add_distrib, Finset.sum_ite_eq', Finset.mem_range, hv, if_true]

/-- Negating an expression negates its coefficients. -/
theorem coefficientAt_negate (e : Expression ℚ) (j : ℕ) :
    e.negate.coefficientAt j = -e.coefficientAt j := by
  -- The two folds stay negatives of each other when they start as such.
  have h : ∀ (terms : List (Term ℚ)) (a : ℚ),
      (terms.map fun t => { t with coefficient := t.coefficient * (-1 : ℚ) }).foldl
          (fun a t => if t.var.index = j then t.coefficient else a) (-a) =
        -terms.foldl (fun a t => if t.var.index = j then t.coefficient else a) a := by
    intro terms
    induction terms with
    | nil => intro a; rfl
    | cons t terms ih =>
      intro a
      rw [List.map_cons, List.foldl_cons, List.foldl_cons]
      by_cases ht : t.var.index = j
      · rw [if_pos ht, if_pos ht, ← ih, mul_neg_one]
      · rw [if_neg ht, if_neg ht, ih]
  have := h e.terms 0
  rwa [neg_zero] at this

/-- Negating an expression negates its constant. -/
theorem constant_negate (e : Expression ℚ) : e.negate.constant = -e.constant :=
  mul_neg_one e.constant

/-- Negating an expression negates its linear part. -/
theorem linear_negate (e : Expression ℚ) (width : ℕ) (x : ℕ → ℚ) :
    e.negate.linear width x = -e.linear width x := by
  unfold linear
  rw [← Finset.sum_neg_distrib]
  exact Finset.sum_congr rfl fun j _ => by rw [coefficientAt_negate, neg_mul]

end Expression

namespace Constraint

/-- The condition that a constraint puts on a point. -/
def Holds (c : Constraint ℚ) (width : ℕ) (x : ℕ → ℚ) : Prop :=
  match c.relation with
  | .atMost => c.expression.linear width x + c.expression.constant ≤ c.bound
  | .atLeast => c.bound ≤ c.expression.linear width x + c.expression.constant
  | .equal => c.expression.linear width x + c.expression.constant = c.bound

/-- Only the values below the width matter. -/
theorem holds_congr (c : Constraint ℚ) {width : ℕ} {x y : ℕ → ℚ} (h : ∀ j < width, x j = y j) :
    c.Holds width x ↔ c.Holds width y := by
  unfold Holds
  rw [Expression.linear_congr _ h]

/-- The bound less the value of the expression at a point. -/
def slack (c : Constraint ℚ) (width : ℕ) (x : ℕ → ℚ) : ℚ :=
  c.bound - (c.expression.linear width x + c.expression.constant)

/-- The slack is on the side of zero that the relation asks for, up to a tolerance. -/
def SatisfiedWithin (c : Constraint ℚ) (tolerance : ℚ) (width : ℕ) (x : ℕ → ℚ) : Prop :=
  match c.relation with
  | .atMost => -tolerance ≤ c.slack width x
  | .atLeast => c.slack width x ≤ tolerance
  | .equal => |c.slack width x| ≤ tolerance

/-- Without tolerance this is the condition of the constraint. -/
theorem satisfiedWithin_zero_iff (c : Constraint ℚ) (width : ℕ) (x : ℕ → ℚ) :
    c.SatisfiedWithin 0 width x ↔ c.Holds width x := by
  unfold SatisfiedWithin Holds slack
  cases c.relation with
  | atMost =>
    dsimp only
    rw [neg_zero, sub_nonneg]
  | atLeast => exact sub_nonpos
  | equal =>
    dsimp only
    rw [abs_nonpos_iff, sub_eq_zero, eq_comm]

/-- What is satisfied within a tolerance is so within a larger one. -/
theorem SatisfiedWithin.mono {c : Constraint ℚ} {t u : ℚ} {width : ℕ} {x : ℕ → ℚ}
    (h : c.SatisfiedWithin t width x) (htu : t ≤ u) : c.SatisfiedWithin u width x := by
  unfold SatisfiedWithin at h ⊢
  generalize c.relation = relation at h ⊢
  cases relation with
  | atMost => exact (neg_le_neg htu).trans h
  | atLeast | equal => exact h.trans htu

/-- A constraint is satisfied when its slack is, up to the tolerance, and its variables fit among
the values. -/
theorem isSatisfied_eq_ok_true_iff (c : Constraint ℚ) (values : List ℚ) (tolerance : ℚ) :
    c.isSatisfied values tolerance = .ok true ↔
      (values.length ≤ Expression.maxDenseLength ∧ c.expression.Within values.length) ∧
        c.SatisfiedWithin tolerance values.length (Row.entry values) := by
  unfold isSatisfied slackAt
  cases he : c.expression.evaluate values with
  | error fault =>
    refine ⟨nofun, fun h => ?_⟩
    have := (Expression.evaluate_eq_ok_iff c.expression values _).2 ⟨h.1.1, h.1.2, rfl⟩
    rw [he] at this
    exact absurd this nofun
  | ok value =>
    obtain ⟨hmax, hw, hvalue⟩ := (Expression.evaluate_eq_ok_iff _ _ _).1 he
    simp only [bind, Except.bind, pure, Except.pure, Except.ok.injEq, hmax, hw, true_and, and_self,
      SatisfiedWithin, slack, ← hvalue]
    cases c.relation with
    | atMost | atLeast => exact decide_eq_true_iff
    | equal => exact Scalar.isNegligible_iff _ _

/-- Without tolerance a constraint is satisfied when its condition holds and its variables fit among
the values. -/
theorem isSatisfied_zero_iff (c : Constraint ℚ) (values : List ℚ) :
    c.isSatisfied values 0 = .ok true ↔
      (values.length ≤ Expression.maxDenseLength ∧ c.expression.Within values.length) ∧
        c.Holds values.length (Row.entry values) := by
  rw [isSatisfied_eq_ok_true_iff, satisfiedWithin_zero_iff]

end Constraint

namespace Direction

/-- A value is better than another in a direction. -/
def Better : Direction → ℚ → ℚ → Prop
  | maximize, a, b => b < a
  | minimize, a, b => a < b

end Direction

namespace Model

/-- A point is non-negative and meets every condition of the model. -/
def Feasible (M : Model ℚ) (x : ℕ → ℚ) : Prop :=
  (∀ j < M.vars.length, 0 ≤ x j) ∧ ∀ c ∈ M.constraints, c.Holds M.vars.length x

/-- Only the values of the model's variables matter. -/
theorem feasible_congr (M : Model ℚ) {x y : ℕ → ℚ} (h : ∀ j < M.vars.length, x j = y j) :
    M.Feasible x ↔ M.Feasible y := by
  refine and_congr (forall₂_congr fun j hj => by rw [h j hj]) (forall₂_congr fun c _ => ?_)
  exact c.holds_congr h

/-- A test of all members succeeds when it succeeds on each. -/
theorem allM_eq_ok_true_iff {β ε : Type} (p : β → Except ε Bool) (xs : List β) :
    xs.allM p = .ok true ↔ ∀ x ∈ xs, p x = .ok true := by
  induction xs with
  | nil => simp [pure, Except.pure]
  | cons x xs ih =>
    rw [List.allM_cons, List.forall_mem_cons, ← ih]
    cases h : p x with
    | error e => simp [bind, Except.bind]
    | ok b => cases b <;> simp [bind, Except.bind, pure, Except.pure]

/-- Values satisfy a model within a tolerance when there is one for each variable, none of them is
below zero and no slack is on the wrong side of zero by more; the slacks can be computed when the
variables fit among the values. -/
theorem isSatisfiedBy_eq_ok_true_iff (M : Model ℚ) (values : List ℚ) (tolerance : ℚ) :
    M.isSatisfiedBy values tolerance = .ok true ↔
      values.length = M.vars.length ∧ (∀ j < M.vars.length, -tolerance ≤ Row.entry values j) ∧
        ∀ c ∈ M.constraints,
          (M.vars.length ≤ Expression.maxDenseLength ∧ c.expression.Within M.vars.length) ∧
            c.SatisfiedWithin tolerance M.vars.length (Row.entry values) := by
  -- The test goes over the values themselves, the condition over their places.
  have hentries : (∀ x ∈ values, -tolerance ≤ x) ↔
      ∀ j < values.length, -tolerance ≤ Row.entry values j := by
    rw [List.forall_mem_iff_forall_getElem]
    refine forall₂_congr fun j hj => ?_
    rw [Row.entry_of_lt hj]
  unfold isSatisfiedBy
  split
  · rename_i h
    obtain ⟨hlen, hpos⟩ := h
    rw [hentries, hlen] at hpos
    rw [allM_eq_ok_true_iff]
    simp only [Constraint.isSatisfied_eq_ok_true_iff, hlen, true_and]
    exact (and_iff_right hpos).symm
  · rename_i h
    refine ⟨nofun, fun hv => absurd ⟨hv.1, hentries.2 ?_⟩ h⟩
    rw [hv.1]
    exact hv.2.1

/-- Values that satisfy a model within a tolerance do so within a larger one. -/
theorem isSatisfiedBy_mono {M : Model ℚ} {values : List ℚ} {t u : ℚ} (h : t ≤ u)
    (hsatisfied : M.isSatisfiedBy values t = .ok true) : M.isSatisfiedBy values u = .ok true := by
  rw [isSatisfiedBy_eq_ok_true_iff] at hsatisfied ⊢
  obtain ⟨hlength, hentries, hconstraints⟩ := hsatisfied
  exact ⟨hlength, fun j hj => (neg_le_neg h).trans (hentries j hj),
    fun c hc => ⟨(hconstraints c hc).1, (hconstraints c hc).2.mono h⟩⟩

/-- Without tolerance, values satisfy a model when there is one for each variable and they are a
feasible point; the conditions can be computed when the variables fit among the values. -/
theorem isSatisfiedBy_zero_iff (M : Model ℚ) (values : List ℚ) :
    M.isSatisfiedBy values 0 = .ok true ↔
      values.length = M.vars.length ∧ M.Feasible (Row.entry values) ∧
        ∀ c ∈ M.constraints,
          M.vars.length ≤ Expression.maxDenseLength ∧ c.expression.Within M.vars.length := by
  simp only [isSatisfiedBy_eq_ok_true_iff, Constraint.satisfiedWithin_zero_iff, neg_zero, Feasible]
  constructor
  · rintro ⟨hlength, hpos, h⟩
    exact ⟨hlength, ⟨hpos, fun c hc => (h c hc).2⟩, fun c hc => (h c hc).1⟩
  · rintro ⟨hlength, ⟨hpos, hholds⟩, h⟩
    exact ⟨hlength, hpos, fun c hc => ⟨h c hc, hholds c hc⟩⟩

end Model

end LinProg
