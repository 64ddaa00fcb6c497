import LinProg.Proofs.Restored

/-!
# A model and its standard form

What the standard form of a model means for vectors of values. Values of the model's variables
satisfy the model when they are the front of a vector without negative values that solves all
equalities of the standard form (`Model.Completes`), and there is at most one such vector: the slack
or the surplus of a constraint is what the other values make of it (`StandardForm.eq_of_feasible`).
The objective of the standard form is to be made as large as possible; its value is that of the
model's objective, negated when the model asks for small values
(`StandardForm.valueAt_asMaximization`).

The points of `Model.Feasible` are functions and have no length. `feasible_of_completes` and
`exists_completes_of_feasible` go between them and the vectors. -/

namespace LinProg

/-- The entries of a row are also those of every row that it is the front of. -/
theorem Row.entry_of_prefix {v w : List ℚ} (h : v <+: w) {j : ℕ} (hj : j < v.length) :
    Row.entry w j = Row.entry v j := by
  unfold Row.entry
  rw [List.prefix_iff_getElem?.1 h j hj, List.getElem?_eq_getElem hj]

namespace Expression

/-- The value of an expression at a vector: its coefficients times the values, and its constant. -/
def valueAt (e : Expression ℚ) (values : List ℚ) : ℚ :=
  e.linear values.length (Row.entry values) + e.constant

/-- Further values do not change the value of an expression that does not mention them. -/
theorem valueAt_of_prefix {e : Expression ℚ} {v w : List ℚ} (h : e.Within v.length)
    (hfront : v <+: w) : e.valueAt w = e.valueAt v := by
  unfold valueAt
  rw [h.linear_eq hfront.length_le, e.linear_congr fun j hj => Row.entry_of_prefix hfront hj]

/-- The negated expression has the negated value. -/
theorem valueAt_negate (e : Expression ℚ) (values : List ℚ) :
    e.negate.valueAt values = -e.valueAt values := by
  unfold valueAt
  rw [linear_negate, constant_negate]
  ring

end Expression

namespace Model

/-- The vector `w` is the vector `v` of values for the variables of `M` with non-negative values for
the further columns of `A`, such that every constraint of `A` holds as an equality. -/
structure Completes (M A : Model ℚ) (v w : List ℚ) : Prop where
  /-- There is a value for each variable of `M`. -/
  length_values : v.length = M.vars.length
  /-- There is a value for each column of `A`. -/
  length_completion : w.length = A.vars.length
  /-- The values for the variables of `M` come first. -/
  values_prefix : v <+: w
  /-- No value is negative. -/
  nonneg : ∀ x ∈ w, 0 ≤ x
  /-- Both sides of every constraint are equal. -/
  valueAt_eq : ∀ c ∈ A.constraints, c.expression.valueAt w = c.bound

variable {M A : Model ℚ}

/-- A completion is a feasible point of a model of equalities. -/
theorem feasible_of_completes (hequal : ∀ c ∈ A.constraints, c.relation = .equal) {v w : List ℚ}
    (h : M.Completes A v w) : A.Feasible (Row.entry w) := by
  rw [Feasible, ← h.length_completion]
  refine ⟨fun j hj => ?_, fun c hc => ?_⟩
  · rw [Row.entry_of_lt hj]
    exact h.nonneg _ (List.getElem_mem hj)
  · unfold Constraint.Holds
    rw [hequal c hc]
    exact h.valueAt_eq c hc

/-- A feasible point of a model of equalities gives a completion of its front. -/
theorem exists_completes_of_feasible (hequal : ∀ c ∈ A.constraints, c.relation = .equal)
    (hwidth : M.vars.length ≤ A.vars.length) {v : List ℚ} (hlength : v.length = M.vars.length)
    {y : ℕ → ℚ} (hy : A.Feasible y) (hv : ∀ j < M.vars.length, y j = Row.entry v j) :
    ∃ w, M.Completes A v w := by
  let w : List ℚ := List.ofFn fun k : Fin A.vars.length => y k
  have hw : w.length = A.vars.length := List.length_ofFn
  have hentry : ∀ j < A.vars.length, Row.entry w j = y j := fun j hj => by
    rw [Row.entry_ofFn, if_pos hj]
  refine ⟨w, hlength, hw, ?_, fun x hx => ?_, fun c hc => ?_⟩
  · rw [List.prefix_iff_getElem?]
    intro j hj
    have hjM : j < M.vars.length := hlength ▸ hj
    have hjA : j < w.length := by omega
    rw [List.getElem?_eq_getElem hjA, Option.some_inj, ← Row.entry_of_lt hjA,
      hentry j (hw ▸ hjA), hv j hjM, Row.entry_of_lt hj]
  · obtain ⟨k, rfl⟩ := (List.mem_ofFn' _ x).1 hx
    exact hy.1 k k.isLt
  · have hholds := hy.2 c hc
    unfold Constraint.Holds at hholds
    rw [hequal c hc] at hholds
    rw [← hholds, Expression.valueAt, hw, c.expression.linear_congr hentry]

/-- Vectors of one length with the same entries are equal. -/
theorem eq_of_entry_eq {v w : List ℚ} (hlength : v.length = w.length)
    (h : ∀ j < v.length, Row.entry v j = Row.entry w j) : v = w := by
  refine List.ext_getElem hlength fun j hj hj' => ?_
  rw [← Row.entry_of_lt hj, ← Row.entry_of_lt hj', h j hj]

end Model

namespace StandardForm

variable {M : Model ℚ}

/-- Made as large as possible, an objective keeps its value or has it negated, also at a vector with
further values. -/
theorem valueAt_asMaximization (hM : M.Scoped) {o : Objective ℚ} (ho : M.objective = some o)
    {v w : List ℚ} (hlength : v.length = M.vars.length) (hfront : v <+: w) :
    o.asMaximization.expression.valueAt w = match o.direction with
      | .maximize => o.expression.valueAt v
      | .minimize => -o.expression.valueAt v := by
  have hwithin : o.expression.Within v.length := by
    rw [hlength]
    exact hM.objective o ho
  unfold Objective.asMaximization
  cases o.direction with
  | maximize => exact Expression.valueAt_of_prefix hwithin hfront
  | minimize =>
    change o.expression.negate.valueAt w = -o.expression.valueAt v
    rw [Expression.valueAt_negate, Expression.valueAt_of_prefix hwithin hfront]

/-- A model without an objective has a standard form without one. -/
theorem objective_ofModel_eq_none (ho : M.objective = none) :
    (ofModel M).model.objective = none := by
  show M.objective.map Objective.asMaximization = none
  rw [ho]
  rfl

/-- Values satisfy a model when the standard form completes them. -/
theorem isSatisfiedBy_iff_exists_completes (hM : M.Scoped) {v : List ℚ}
    (hv : v.length ≤ Expression.maxDenseLength) :
    M.isSatisfiedBy v 0 = .ok true ↔ ∃ w, M.Completes (ofModel M).model v w := by
  have hextends := ofModel_extends hM
  have hequal := (isStandard_ofModel hM).relation_eq
  rw [Model.isSatisfiedBy_zero_iff]
  constructor
  · rintro ⟨hlength, hfeasible, -⟩
    obtain ⟨y, hy, hyv⟩ := hextends.extend _ hfeasible
    exact Model.exists_completes_of_feasible hequal hextends.width_le hlength hy hyv
  · rintro ⟨w, hw⟩
    have hlength := hw.length_values
    have hfeasible := hextends.restrict _ (Model.feasible_of_completes hequal hw)
    refine ⟨hlength, (M.feasible_congr fun j hj => ?_).1 hfeasible,
      fun c hc => ⟨hlength ▸ hv, hM.constraints c hc⟩⟩
    exact Row.entry_of_prefix hw.values_prefix (hlength ▸ hj)

/-- The standard form completes values in one way at most. -/
theorem completes_unique (hM : M.Scoped) {v w w' : List ℚ}
    (h : M.Completes (ofModel M).model v w) (h' : M.Completes (ofModel M).model v w') : w = w' := by
  have hequal := (isStandard_ofModel hM).relation_eq
  refine Model.eq_of_entry_eq (h.length_completion.trans h'.length_completion.symm) ?_
  rw [h.length_completion]
  refine eq_of_feasible hM (Model.feasible_of_completes hequal h)
    (Model.feasible_of_completes hequal h') fun j hj => ?_
  have hjv : j < v.length := h.length_values ▸ hj
  rw [Row.entry_of_prefix h.values_prefix hjv, Row.entry_of_prefix h'.values_prefix hjv]

end StandardForm

/-- The standard form of a model that calls build is equivalent to it. Its constraints are
equalities with bounds that are not negative. Values satisfy the model exactly when they have a
completion, and then one only; a vector that memory cannot hold is left out. Without an objective it
has none; otherwise its objective is to be made as large as possible, and has the value of the
model's objective or its negation. -/
theorem Model.standardForm_equivalent (name : String) (calls : List (Call ℚ)) :
    let M := built name calls
    let A := (StandardForm.ofModel M).model
    (∀ c ∈ A.constraints, c.relation = .equal ∧ 0 ≤ c.bound) ∧
      (∀ v : List ℚ, v.length ≤ Expression.maxDenseLength →
        (M.isSatisfiedBy v 0 = .ok true ↔ ∃ w, M.Completes A v w)) ∧
      (∀ v w w' : List ℚ, M.Completes A v w → M.Completes A v w' → w = w') ∧
      (M.objective = none → A.objective = none) ∧
      ∀ o, M.objective = some o → ∃ p, A.objective = some p ∧ p.direction = .maximize ∧
        ∀ v w : List ℚ, v.length = M.vars.length → v <+: w →
          p.expression.valueAt w = match o.direction with
            | .maximize => o.expression.valueAt v
            | .minimize => -o.expression.valueAt v := by
  intro M A
  have hM : M.Scoped := scoped_built name calls
  have hstandard : A.IsStandard := StandardForm.isStandard_ofModel hM
  refine ⟨fun c hc => ⟨hstandard.relation_eq c hc, hstandard.bound_nonneg c hc⟩,
    fun v hv => StandardForm.isSatisfiedBy_iff_exists_completes hM hv,
    fun v w w' hw hw' => StandardForm.completes_unique hM hw hw',
    StandardForm.objective_ofModel_eq_none, fun o ho => ?_⟩
  exact ⟨o.asMaximization, StandardForm.objective_ofModel ho, o.direction_asMaximization,
    fun v w hlength hfront => StandardForm.valueAt_asMaximization hM ho hlength hfront⟩

/-- Make `x + y` small, with `x + y ≥ 1`, `-x - 2 y ≥ -4`, and `x + y + 1 = 3`. -/
def Model.mixedCalls : List (Call ℚ) :=
  let x : Variable := ⟨0, "x"⟩
  let y : Variable := ⟨1, "y"⟩
  [.addVariable "x", .addVariable "y",
    .addConstraint ⟨[⟨1, x⟩, ⟨1, y⟩], 0⟩ .atLeast 1,
    .addConstraint ⟨[⟨-1, x⟩, ⟨-2, y⟩], 0⟩ .atLeast (-4),
    .addConstraint ⟨[⟨1, x⟩, ⟨1, y⟩], 1⟩ .equal 3,
    .minimize ⟨[⟨1, x⟩, ⟨1, y⟩], 0⟩]

/-- The values one and one satisfy the mixed model, so they have a completion, and only one. The
objective of the standard form has there the negated value. -/
theorem Model.standardForm_equivalent_mixed :
    [(1 : ℚ), 1].length ≤ Expression.maxDenseLength ∧
      (built "mixed" mixedCalls : Model ℚ).isSatisfiedBy [1, 1] 0 = .ok true ∧
      ∃ w o p,
        (built "mixed" mixedCalls).Completes
          (StandardForm.ofModel (built "mixed" mixedCalls)).model [1, 1] w ∧
        (∀ w', (built "mixed" mixedCalls).Completes
          (StandardForm.ofModel (built "mixed" mixedCalls)).model [1, 1] w' → w' = w) ∧
        (built "mixed" mixedCalls : Model ℚ).objective = some o ∧ o.direction = .minimize ∧
        (StandardForm.ofModel (built "mixed" mixedCalls)).model.objective = some p ∧
        p.direction = .maximize ∧ p.expression.valueAt w = -o.expression.valueAt [1, 1] := by
  have hsatisfied :
      (built "mixed" mixedCalls : Model ℚ).isSatisfiedBy [1, 1] 0 = .ok true := by
    decide +kernel
  have hlength : [(1 : ℚ), 1].length ≤ Expression.maxDenseLength := by decide
  obtain ⟨-, hiff, hunique, -, hobjective⟩ := standardForm_equivalent "mixed" mixedCalls
  obtain ⟨w, hw⟩ := (hiff [1, 1] hlength).1 hsatisfied
  obtain ⟨p, hp, hdirection, hvalue⟩ := hobjective _ rfl
  exact ⟨hlength, hsatisfied, w, _, p, hw, fun w' hw' => hunique _ _ _ hw' hw, rfl, rfl, hp,
    hdirection, hvalue [1, 1] w rfl hw.values_prefix⟩

end LinProg
