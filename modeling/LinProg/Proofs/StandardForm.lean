import LinProg.Proofs.Columns

/-!
# The standard form of a model

A model and its standard form have the same feasible points, up to the values of the columns that
the standard form adds (`ofModel_extends`). Each pass has a lemma of its own: moving constants to
the bounds, turning constraints with a negative bound around, and giving a slack or a surplus to
each inequality. The added columns have no choice of values (`eq_of_feasible`). The result is what a
tableau needs (`isStandard_ofModel`), and the slacks are unit vectors that the objective does not
mention (`unitColumn_of_slack`). -/

namespace LinProg

/-- A constraint without a constant stays as it is, where to take away zero changes nothing. -/
theorem Constraint.simplify_of_sub_zero {α : Type} [Scalar α] {c : Constraint α}
    (hsub : c.bound - 0 = c.bound) (h : c.expression.constant = 0) : c.simplify = c := by
  have hbound : c.bound - c.expression.constant = c.bound := by rw [h, hsub]
  have hexpression : c.expression.dropConstant = c.expression := by
    unfold Expression.dropConstant
    rw [← h]
  unfold simplify
  rw [hbound, hexpression]

/-- Moving the constant to the bound keeps the condition. -/
theorem Constraint.holdsWithin_simplify (c : Constraint ℚ) (gap excess : ℚ) (width : ℕ)
    (x : ℕ → ℚ) :
    c.simplify.HoldsWithin gap excess width x ↔ c.HoldsWithin gap excess width x := by
  have hslack : c.simplify.slack width x = c.slack width x := by
    change c.bound - c.expression.constant - (c.expression.linear width x + 0) =
      c.bound - (c.expression.linear width x + c.expression.constant)
    ring
  unfold HoldsWithin
  rw [hslack]
  rfl

/-- Negating both sides keeps the condition. -/
theorem Constraint.holdsWithin_invert (c : Constraint ℚ) (gap excess : ℚ) (width : ℕ)
    (x : ℕ → ℚ) :
    c.invert.HoldsWithin gap excess width x ↔ c.HoldsWithin gap excess width x := by
  have hslack : c.invert.slack width x = -c.slack width x := by
    unfold slack invert
    dsimp only
    rw [Expression.linear_negate, Expression.constant_negate]
    change -c.bound - _ = _
    ring
  have hrelation : c.invert.relation = c.relation.inverted := rfl
  unfold HoldsWithin
  rw [hslack, hrelation]
  cases c.relation with
  | atMost => exact neg_le
  | atLeast => exact neg_le_neg_iff
  | equal =>
    dsimp only [Relation.inverted]
    rw [abs_neg]

/-- Making the bound non-negative keeps the condition. -/
theorem Constraint.holdsWithin_withPositiveBound (c : Constraint ℚ) (gap excess : ℚ) (width : ℕ)
    (x : ℕ → ℚ) :
    c.withPositiveBound.HoldsWithin gap excess width x ↔ c.HoldsWithin gap excess width x := by
  unfold withPositiveBound
  split
  · exact c.holdsWithin_invert gap excess width x
  · exact Iff.rfl

namespace StandardForm

/-! ## The passes -/

section Passes

variable {α : Type} [Scalar α] {M : Model α}

/-- A model with the constants moved to the bounds, bounds that are not negative, and an objective
to make as large as possible. -/
def signed (M : Model α) : Model α :=
  { M.simplify with
    constraints := M.simplify.constraints.map Constraint.withPositiveBound
    objective := M.simplify.objective.map Objective.asMaximization }

/-- The standard form gives slacks to the constraints that are at most their bounds, and then
surpluses to those that are at least theirs. -/
theorem ofModel_attached (M : Model α) :
    ∃ (slacked : Model α) (surpluses : List (Option ℕ)),
      (signed M).Attached 1 ((signed M).withRelation .atMost) slacked (ofModel M).slacks ∧
      slacked.Attached (-1) (slacked.withRelation .atLeast) (ofModel M).model surpluses := by
  refine ⟨_, _, Model.attached_attachColumns _ 1 "s" ?_, Model.attached_attachColumns _ (-1) "e" ?_⟩
  · simp [Model.withRelation]
  · simp [Model.withRelation]

/-- The signs keep the variables of the expressions. -/
theorem scoped_signed (hM : M.Scoped) : (signed M).Scoped := by
  refine ⟨fun d hmem => ?_, fun o ho => ?_⟩
  · obtain ⟨c', hmem', rfl⟩ := List.mem_map.1 hmem
    obtain ⟨c, hc, rfl⟩ := List.mem_map.1 hmem'
    have hwithin : c.simplify.expression.Within M.vars.length := hM.constraints c hc
    change Expression.Within _ M.vars.length
    unfold Constraint.withPositiveBound
    split
    · exact (Expression.within_negate _ _).2 hwithin
    · exact hwithin
  · obtain ⟨p, hp, rfl⟩ := Option.map_eq_some_iff.1 ho
    have hwithin : p.expression.Within M.vars.length := hM.objective p hp
    change Expression.Within _ M.vars.length
    unfold Objective.asMaximization
    split
    · exact hwithin
    · exact (Expression.within_negate _ _).2 hwithin

omit [Scalar α] in
/-- A constraint that is chosen for its relation has that relation. -/
theorem relation_of_withRelation {N : Model α} {relation : Relation} {k : ℕ} {c : Constraint α}
    (hc : N.constraints[k]? = some c) (hk : (N.withRelation relation)[k]? = some true) :
    c.relation = relation := by
  simpa [Model.withRelation, hc] using hk

/-- The objective of the standard form is to be made as large as possible. -/
theorem objective_ofModel {o : Objective α} (ho : M.objective = some o) :
    (ofModel M).model.objective = some o.asMaximization := by
  show M.objective.map Objective.asMaximization = some o.asMaximization
  rw [ho]
  rfl

/-- The objective of the standard form mentions the model's own variables only. -/
theorem within_asMaximization {o : Objective α} (hM : M.Scoped)
    (ho : M.objective = some o) : o.asMaximization.expression.Within M.vars.length := by
  have hwithin := hM.objective o ho
  unfold Objective.asMaximization
  split
  · exact hwithin
  · exact (Expression.within_negate _ _).2 hwithin

/-- The standard form has as many constraints as the model. -/
theorem length_constraints_ofModel (M : Model α) :
    (ofModel M).model.constraints.length = M.constraints.length := by
  obtain ⟨slacked, surpluses, hslack, hsurplus⟩ := ofModel_attached M
  rw [hsurplus.length_constraints, hslack.length_constraints]
  simp [signed, Model.simplify]

/-- There is an entry for the slack of each constraint. -/
theorem length_slacks_ofModel (M : Model α) :
    (ofModel M).slacks.length = (ofModel M).model.constraints.length := by
  obtain ⟨slacked, surpluses, hslack, hsurplus⟩ := ofModel_attached M
  rw [hslack.length_columns, hsurplus.length_constraints, hslack.length_constraints]

/-- The standard form has at most two more columns for each constraint. -/
theorem width_ofModel_le (M : Model α) :
    (ofModel M).model.vars.length ≤ M.vars.length + 2 * M.constraints.length := by
  obtain ⟨slacked, surpluses, hslack, hsurplus⟩ := ofModel_attached M
  have hfirst := hslack.width_le_add
  have hsecond := hsurplus.width_le_add
  rw [hslack.length_constraints] at hsecond
  have hvars : (signed M).vars.length = M.vars.length := rfl
  have hconstraints : (signed M).constraints.length = M.constraints.length := by
    simp [signed, Model.simplify]
  omega

omit [Scalar α] in
/-- The constraints chosen for a relation are counted by their relations. -/
theorem count_withRelation (N : Model α) (relation : Relation) :
    (N.withRelation relation).count true = (N.constraints.map (·.relation)).count relation := by
  unfold Model.withRelation
  rw [List.count, List.count, List.countP_map, List.countP_map]
  exact List.countP_congr fun c _ => by simp

omit [Scalar α] in
/-- Two passes over the relations, one for each kind of inequality, meet all inequalities. -/
theorem count_atMost_add_count_atLeast (relations : List Relation) :
    relations.count .atMost +
        (relations.map fun r => if r = .atMost then .equal else r).count .atLeast =
      relations.countP (· ≠ .equal) := by
  induction relations with
  | nil => rfl
  | cons r relations ih =>
    cases r with
    | atMost =>
      simp at ih ⊢
      omega
    | atLeast =>
      simp at ih ⊢
      omega
    | equal =>
      simp at ih ⊢
      omega

/-- The model's own variables come first in the standard form, and after them there is one for each
inequality. -/
theorem exists_vars_ofModel (M : Model α) :
    ∃ added, (ofModel M).model.vars = M.vars ++ added ∧
      added.length = (M.constraints.filter (·.relation ≠ .equal)).length := by
  obtain ⟨slacked, surpluses, hslack, hsurplus⟩ := ofModel_attached M
  obtain ⟨added, hadded⟩ := hslack.vars_prefix.trans hsurplus.vars_prefix
  refine ⟨added, hadded.symm, ?_⟩
  have hlength := congrArg List.length hadded
  rw [List.length_append, hsurplus.width_eq, hslack.width_eq] at hlength
  -- The signs turn inequalities around, but leave them inequalities.
  have hsigned : (signed M).constraints.map (·.relation) =
      M.constraints.map fun c => c.simplify.withPositiveBound.relation := by
    simp [signed, Model.simplify]
  have hturn : ∀ c : Constraint α,
      c.simplify.withPositiveBound.relation ≠ .equal ↔ c.relation ≠ .equal := by
    intro c
    unfold Constraint.withPositiveBound
    split
    · show c.relation.inverted ≠ .equal ↔ _
      cases c.relation <;> decide
    · exact Iff.rfl
  have hcount := count_atMost_add_count_atLeast ((signed M).constraints.map (·.relation))
  rw [← hslack.map_relation, ← count_withRelation, ← count_withRelation, hsigned,
    List.countP_map] at hcount
  have hinequalities : M.constraints.countP (fun c => decide (c.relation ≠ .equal)) =
      M.constraints.countP ((fun r => decide (r ≠ .equal)) ∘
        fun c => c.simplify.withPositiveBound.relation) :=
    List.countP_congr fun c _ => by simp only [Function.comp_apply, hturn]
  have hvars : (signed M).vars.length = M.vars.length := rfl
  rw [← List.countP_eq_length_filter, hinequalities]
  omega

/-- The variables of the expressions of the standard form exist. -/
theorem scoped_ofModel (hM : M.Scoped) : (ofModel M).model.Scoped := by
  obtain ⟨slacked, surpluses, hslack, hsurplus⟩ := ofModel_attached M
  exact hsurplus.model_scoped (hslack.model_scoped (scoped_signed hM))

/-- The slack of a constraint is a unit vector, beyond the model's own variables. -/
theorem unitColumn_of_slack (hM : M.Scoped) {k n : ℕ}
    (h : (ofModel M).slacks[k]? = some (some n)) :
    (ofModel M).model.UnitColumn k n ∧ M.vars.length ≤ n := by
  obtain ⟨slacked, surpluses, hslack, hsurplus⟩ := ofModel_attached M
  have hsigned := scoped_signed hM
  exact ⟨hsurplus.unitColumn_of_unitColumn (hslack.model_scoped hsigned)
    (hslack.unitColumn hsigned h), (hslack.column_bounds h).1⟩

omit [Scalar α] in
/-- When phase one is not needed, each constraint has a slack. -/
theorem exists_slack_of_needsPhaseOne_eq_false {form : StandardForm α}
    (h : form.needsPhaseOne = false) {k : ℕ} (hk : k < form.slacks.length) :
    ∃ n, form.slacks[k]? = some (some n) := by
  have hsome : form.slacks[k] ≠ none := by
    have hall := List.any_eq_false.1 h _ (List.getElem_mem hk)
    simpa using hall
  obtain ⟨n, hn⟩ := Option.ne_none_iff_exists'.1 hsome
  exact ⟨n, by rw [List.getElem?_eq_getElem hk, hn]⟩

end Passes

/-! ## The feasible points -/

variable {M : Model ℚ}

/-- The signs keep the feasible points. -/
theorem extends_signed (M : Model ℚ) : M.Extends (signed M) :=
  (M.extends_map Constraint.simplify Constraint.holdsWithin_simplify M.objective).trans
    (M.simplify.extends_map Constraint.withPositiveBound
      Constraint.holdsWithin_withPositiveBound _)

/-- After the signs no constraint has a constant or a negative bound. -/
theorem constant_eq_and_bound_nonneg_signed (M : Model ℚ) :
    ∀ c ∈ (signed M).constraints, c.expression.constant = 0 ∧ 0 ≤ c.bound := by
  intro d hmem
  obtain ⟨c', hmem', rfl⟩ := List.mem_map.1 hmem
  obtain ⟨c, -, rfl⟩ := List.mem_map.1 hmem'
  have hzero : c.simplify.expression.constant = 0 := rfl
  unfold Constraint.withPositiveBound
  split
  · rename_i hneg
    have hneg : c.simplify.bound < 0 := hneg
    refine ⟨?_, neg_nonneg.2 hneg.le⟩
    change c.simplify.expression.negate.constant = 0
    rw [Expression.constant_negate, hzero, neg_zero]
  · rename_i hnonneg
    exact ⟨hzero, not_lt.1 hnonneg⟩

/-- Giving slacks keeps the feasible points: the slack of such a constraint is at least zero. -/
theorem extends_of_slacks {N slacked : Model ℚ} {columns : List (Option ℕ)}
    (h : N.Attached 1 (N.withRelation .atMost) slacked columns) (hN : N.Scoped) :
    N.Extends slacked := by
  refine h.model_extends hN (one_mul 1) fun k c hc hk gap excess width x => ?_
  unfold Constraint.HoldsWithin
  rw [relation_of_withRelation hc hk, one_mul]

/-- Giving surpluses keeps the feasible points: the slack of such a constraint times minus one is at
least zero. -/
theorem extends_of_surpluses {N surplused : Model ℚ} {columns : List (Option ℕ)}
    (h : N.Attached (-1) (N.withRelation .atLeast) surplused columns) (hN : N.Scoped) :
    N.Extends surplused := by
  refine h.model_extends hN (by norm_num) fun k c hc hk gap excess width x => ?_
  unfold Constraint.HoldsWithin
  rw [relation_of_withRelation hc hk, neg_one_mul]
  exact neg_le_neg_iff.symm

/-- A model and its standard form have the same feasible points. -/
theorem ofModel_extends (hM : M.Scoped) : M.Extends (ofModel M).model := by
  obtain ⟨slacked, surpluses, hslack, hsurplus⟩ := ofModel_attached M
  have hsigned := scoped_signed hM
  exact ((extends_signed M).trans (extends_of_slacks hslack hsigned)).trans
    (extends_of_surpluses hsurplus (hslack.model_scoped hsigned))

/-- A feasible point of the standard form is determined by the values of the model's variables. -/
theorem eq_of_feasible (hM : M.Scoped) {y z : ℕ → ℚ} (hy : (ofModel M).model.Feasible y)
    (hz : (ofModel M).model.Feasible z) (hold : ∀ j < M.vars.length, y j = z j) :
    ∀ j < (ofModel M).model.vars.length, y j = z j := by
  obtain ⟨slacked, surpluses, hslack, hsurplus⟩ := ofModel_attached M
  have hsigned := scoped_signed hM
  have hslacked := hslack.model_scoped hsigned
  have hrestrict := (extends_of_surpluses hsurplus hslacked).restrict
  -- The slacks are determined in the model without the surpluses, and then the surpluses are.
  have hslacks : ∀ j < slacked.vars.length, y j = z j :=
    hslack.eq_of_feasible hsigned (one_mul 1) (hrestrict y hy) (hrestrict z hz) hold
  exact hsurplus.eq_of_feasible hslacked (by norm_num) hy hz hslacks

/-- The standard form is in the form that a tableau needs. -/
theorem isStandard_ofModel (hM : M.Scoped) : (ofModel M).model.IsStandard := by
  obtain ⟨slacked, surpluses, hslack, hsurplus⟩ := ofModel_attached M
  have hkeep : ∀ (a : ℚ) (c : Constraint ℚ) (v : Variable),
      c.expression.constant = 0 ∧ 0 ≤ c.bound →
        (c.absorb a v).expression.constant = 0 ∧ 0 ≤ (c.absorb a v).bound := by
    intro a c v hc
    exact ⟨(Expression.constant_push _ a v).trans hc.1, hc.2⟩
  have hform := hsurplus.forall_constraints (hkeep _)
    (hslack.forall_constraints (hkeep _) (constant_eq_and_bound_nonneg_signed M))
  refine ⟨scoped_ofModel hM, fun d hd => ?_, fun d hd => (hform d hd).1,
    fun d hd => (hform d hd).2⟩
  rcases hsurplus.relation_cases d hd with hequal | ⟨hd', hatLeast⟩
  · exact hequal
  · rcases hslack.relation_cases d hd' with hequal | ⟨-, hatMost⟩
    · exact hequal
    · -- Neither at most nor at least its bound, the constraint is an equality.
      cases hrelation : d.relation with
      | atMost => exact absurd hrelation hatMost
      | atLeast => exact absurd hrelation hatLeast
      | equal => rfl

end StandardForm

/-- Making an objective as large as possible is making it better. -/
theorem Objective.better_iff (o : Objective ℚ) (width : ℕ) (x y : ℕ → ℚ) :
    o.direction.Better (o.expression.linear width x + o.expression.constant)
        (o.expression.linear width y + o.expression.constant) ↔
      o.asMaximization.expression.linear width y < o.asMaximization.expression.linear width x := by
  unfold asMaximization
  cases hdirection : o.direction with
  | maximize => exact add_lt_add_iff_right _
  | minimize =>
    change _ ↔ o.expression.negate.linear width y < o.expression.negate.linear width x
    rw [Expression.linear_negate, Expression.linear_negate, neg_lt_neg_iff]
    exact add_lt_add_iff_right _

end LinProg
