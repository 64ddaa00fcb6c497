import LinProg.StandardForm
import LinProg.Proofs.Building

/-!
# Columns for constraints

Both the standard form and phase one give some constraints a column of their own. `Attached` is all
that this does. The columns are numbered one after the other, from the number of variables on, so no
two constraints share one, and each is a multiple of a unit vector (`Attached.coefficientAt`).

A constraint that absorbs a column becomes an equality, and the column makes up for its slack. Where
the sign of the slack is what the constraint is about, the points that are feasible stay the same,
up to the values of the new columns (`Attached.model_extends`). `Model.Extends` is this relation
between two models; it is transitive. It is about points that miss the equalities by a gap and are
below zero by an excess as well (`Model.FeasibleWithin`): in the model before, these miss the
inequalities by no more than both together.

`IsStandard` says what a tableau needs of a model: equalities without constants, with bounds that
are not negative. -/

namespace LinProg

/-! ## Columns for chosen constraints -/

section Attached

variable {α : Type} [Scalar α]

/-- The columns that are given are numbered one after the other, and each new variable has the
number of its column. -/
theorem columns_attachColumns (coefficient : α) (letter : String) (next i : ℕ)
    (pairs : List (Constraint α × Bool)) :
    let attached := attachColumns coefficient letter next i pairs
    attached.2.2.reduceOption = List.range' next attached.1.length ∧
      attached.1.map (·.index) = List.range' next attached.1.length := by
  induction pairs generalizing next i with
  | nil => exact ⟨rfl, rfl⟩
  | cons pair rest ih =>
    obtain ⟨c, chosen⟩ := pair
    cases chosen with
    | false =>
      obtain ⟨hcolumns, hindices⟩ := ih next (i + 1)
      exact ⟨by simpa [attachColumns] using hcolumns, by simpa [attachColumns] using hindices⟩
    | true =>
      obtain ⟨hcolumns, hindices⟩ := ih (next + 1) (i + 1)
      constructor
      · simp only [attachColumns, List.reduceOption_cons_of_some, List.length_cons,
          List.range'_succ, hcolumns]
      · simp only [attachColumns, List.map_cons, List.length_cons, List.range'_succ, hindices]

/-- Each constraint gets a column when it is chosen, and is kept otherwise. -/
theorem getElem?_attachColumns (coefficient : α) (letter : String) (next i : ℕ)
    (pairs : List (Constraint α × Bool)) (k : ℕ) (c : Constraint α) (chosen : Bool)
    (h : pairs[k]? = some (c, chosen)) :
    let attached := attachColumns coefficient letter next i pairs
    (chosen = false ∧ attached.2.1[k]? = some c ∧ attached.2.2[k]? = some none) ∨
      (chosen = true ∧ ∃ n name, attached.2.1[k]? = some (c.absorb coefficient ⟨n, name⟩) ∧
        attached.2.2[k]? = some (some n)) := by
  induction pairs generalizing next i k with
  | nil => exact absurd h nofun
  | cons pair rest ih =>
    obtain ⟨d, first⟩ := pair
    cases k with
    | zero =>
      have hpair : (d, first) = (c, chosen) := by simpa using h
      cases hpair
      cases chosen with
      | false => exact Or.inl ⟨rfl, rfl, rfl⟩
      | true => exact Or.inr ⟨rfl, next, _, rfl, rfl⟩
    | succ k =>
      have hrest : rest[k]? = some (c, chosen) := by simpa using h
      cases first with
      | false => simpa [attachColumns] using ih next (i + 1) k hrest
      | true => simpa [attachColumns] using ih (next + 1) (i + 1) k hrest

/-- There are as many constraints and columns as before. -/
theorem length_attachColumns (coefficient : α) (letter : String) (next i : ℕ)
    (pairs : List (Constraint α × Bool)) :
    let attached := attachColumns coefficient letter next i pairs
    attached.2.1.length = pairs.length ∧ attached.2.2.length = pairs.length := by
  induction pairs generalizing next i with
  | nil => exact ⟨rfl, rfl⟩
  | cons pair rest ih =>
    obtain ⟨c, chosen⟩ := pair
    cases chosen with
    | false =>
      obtain ⟨hconstraints, hcolumns⟩ := ih next (i + 1)
      exact ⟨congrArg (· + 1) hconstraints, congrArg (· + 1) hcolumns⟩
    | true =>
      obtain ⟨hconstraints, hcolumns⟩ := ih (next + 1) (i + 1)
      exact ⟨congrArg (· + 1) hconstraints, congrArg (· + 1) hcolumns⟩

/-- `N` is `M` with a column for each chosen constraint, as the list of columns tells. -/
structure Model.Attached (M : Model α) (coefficient : α) (chosen : List Bool) (N : Model α)
    (columns : List (Option ℕ)) : Prop where
  /-- The model's own variables come first. -/
  vars_prefix : M.vars <+: N.vars
  /-- The new variables have the next free numbers. -/
  map_index : (N.vars.drop M.vars.length).map (·.index) =
    List.range' M.vars.length (N.vars.length - M.vars.length)
  /-- The columns are those of the new variables, in order. -/
  reduceOption_columns : columns.reduceOption =
    List.range' M.vars.length (N.vars.length - M.vars.length)
  /-- The objective is the same. -/
  objective : N.objective = M.objective
  /-- There are as many constraints. -/
  length_constraints : N.constraints.length = M.constraints.length
  /-- There is a choice for each constraint. -/
  length_chosen : chosen.length = M.constraints.length
  /-- There is an entry for each constraint. -/
  length_columns : columns.length = M.constraints.length
  /-- A constraint that is not chosen is the same. -/
  kept : ∀ (k : ℕ) (c : Constraint α), M.constraints[k]? = some c → chosen[k]? = some false →
    N.constraints[k]? = some c ∧ columns[k]? = some none
  /-- A constraint that is chosen absorbs its column. -/
  absorbed : ∀ (k : ℕ) (c : Constraint α), M.constraints[k]? = some c → chosen[k]? = some true →
    ∃ n name, N.constraints[k]? = some (c.absorb coefficient ⟨n, name⟩) ∧
      columns[k]? = some (some n)

/-- What giving columns does, with a choice for each constraint. -/
theorem Model.attached_attachColumns (M : Model α) (coefficient : α) (letter : String)
    {chosen : List Bool} (hlength : chosen.length = M.constraints.length) :
    M.Attached coefficient chosen (M.attachColumns coefficient letter chosen).1
      (M.attachColumns coefficient letter chosen).2 := by
  obtain ⟨hcolumns, hindices⟩ :=
    columns_attachColumns coefficient letter M.vars.length 0 (M.constraints.zip chosen)
  obtain ⟨hconstraints, hlengths⟩ :=
    length_attachColumns coefficient letter M.vars.length 0 (M.constraints.zip chosen)
  have hget := getElem?_attachColumns coefficient letter M.vars.length 0 (M.constraints.zip chosen)
  have hzip : ∀ (k : ℕ) (c : Constraint α) (b : Bool), M.constraints[k]? = some c →
      chosen[k]? = some b → (M.constraints.zip chosen)[k]? = some (c, b) := by
    intro k c b hc hb
    simp [List.getElem?_zip_eq_some, hc, hb]
  refine ⟨List.prefix_append _ _, ?_, ?_, rfl, ?_, hlength, ?_, fun k c hc hb => ?_,
    fun k c hc hb => ?_⟩
  · simpa [Model.attachColumns] using hindices
  · simpa [Model.attachColumns] using hcolumns
  · simpa [Model.attachColumns, hlength] using hconstraints
  · simpa [Model.attachColumns, hlength] using hlengths
  · rcases hget k c false (hzip k c false hc hb) with ⟨-, hsame, hnone⟩ | ⟨habsurd, -⟩
    · exact ⟨hsame, hnone⟩
    · exact absurd habsurd Bool.false_ne_true
  · rcases hget k c true (hzip k c true hc hb) with ⟨habsurd, -⟩ | ⟨-, habsorbed⟩
    · exact absurd habsurd.symm Bool.false_ne_true
    · exact habsorbed

namespace Model.Attached

variable {M N : Model α} {coefficient : α} {chosen : List Bool} {columns : List (Option ℕ)}

omit [Scalar α] in
/-- A list in which no number is given twice gives each number at one place. -/
theorem eq_of_getElem?_eq_some {numbers : List (Option ℕ)} (h : numbers.reduceOption.Nodup)
    {a b n : ℕ} (ha : numbers[a]? = some (some n)) (hb : numbers[b]? = some (some n)) : a = b := by
  induction numbers generalizing a b with
  | nil => exact absurd ha nofun
  | cons number rest ih =>
    have hrest : rest.reduceOption.Nodup := by
      cases number with
      | none => simpa using h
      | some m => exact (List.nodup_cons.1 (by simpa using h)).2
    -- The first number does not come again in the rest.
    have hfirst : ∀ k : ℕ, rest[k]? = some (some n) → number ≠ some n := by
      rintro k hk rfl
      have hnot := (List.nodup_cons.1 (by simpa using h : (n :: rest.reduceOption).Nodup)).1
      exact hnot (List.reduceOption_mem_iff.2 (List.mem_of_getElem? hk))
    cases a with
    | zero =>
      cases b with
      | zero => rfl
      | succ b => exact absurd (by simpa using ha) (hfirst b (by simpa using hb))
    | succ a =>
      cases b with
      | zero => exact absurd (by simpa using hb) (hfirst a (by simpa using ha))
      | succ b => exact congrArg (· + 1) (ih hrest (by simpa using ha) (by simpa using hb))

/-- The model does not become narrower. -/
theorem width_le (h : M.Attached coefficient chosen N columns) :
    M.vars.length ≤ N.vars.length :=
  h.vars_prefix.length_le

/-- Exactly the numbers of the new variables are given. -/
theorem mem_columns_iff (h : M.Attached coefficient chosen N columns) (n : ℕ) :
    some n ∈ columns ↔ M.vars.length ≤ n ∧ n < N.vars.length := by
  have := h.width_le
  rw [← List.reduceOption_mem_iff, h.reduceOption_columns, List.mem_range'_1]
  omega

/-- A column that is given is new. -/
theorem column_bounds (h : M.Attached coefficient chosen N columns) {k n : ℕ}
    (hn : columns[k]? = some (some n)) : M.vars.length ≤ n ∧ n < N.vars.length :=
  (h.mem_columns_iff n).1 (List.mem_of_getElem? hn)

/-- No two constraints get the same column. -/
theorem eq_of_column_eq (h : M.Attached coefficient chosen N columns) {a b n : ℕ}
    (ha : columns[a]? = some (some n)) (hb : columns[b]? = some (some n)) : a = b :=
  eq_of_getElem?_eq_some (by rw [h.reduceOption_columns]; exact List.nodup_range') ha hb

/-- Each constraint of the new model is one of the model, or has absorbed its column. -/
theorem constraint_cases (h : M.Attached coefficient chosen N columns) {k : ℕ} {d : Constraint α}
    (hd : N.constraints[k]? = some d) :
    ∃ c, M.constraints[k]? = some c ∧
      ((chosen[k]? = some false ∧ columns[k]? = some none ∧ d = c) ∨
        (chosen[k]? = some true ∧ ∃ n name, columns[k]? = some (some n) ∧
          d = c.absorb coefficient ⟨n, name⟩)) := by
  have hk : k < M.constraints.length := by
    rw [← h.length_constraints]
    exact (List.getElem?_eq_some_iff.1 hd).1
  refine ⟨M.constraints[k], List.getElem?_eq_getElem hk, ?_⟩
  have hk' : k < chosen.length := by
    rw [h.length_chosen]
    exact hk
  have hchosen : chosen[k]? = some chosen[k] := List.getElem?_eq_getElem hk'
  cases hb : chosen[k] with
  | false =>
    rw [hb] at hchosen
    obtain ⟨hsame, hnone⟩ := h.kept k _ (List.getElem?_eq_getElem hk) hchosen
    rw [hsame] at hd
    exact Or.inl ⟨hchosen, hnone, (Option.some.inj hd).symm⟩
  | true =>
    rw [hb] at hchosen
    obtain ⟨n, name, hsame, hn⟩ := h.absorbed k _ (List.getElem?_eq_getElem hk) hchosen
    rw [hsame] at hd
    exact Or.inr ⟨hchosen, n, name, hn, (Option.some.inj hd).symm⟩

/-- The coefficients of a constraint of the new model are those of the constraint it comes from, and
that of its own column. -/
theorem coefficientAt (h : M.Attached coefficient chosen N columns) (hM : M.Scoped) {k : ℕ}
    {d : Constraint α} (hd : N.constraints[k]? = some d) :
    ∃ c, M.constraints[k]? = some c ∧ ∀ j, d.expression.coefficientAt j =
      if columns[k]? = some (some j) then coefficient else c.expression.coefficientAt j := by
  -- A constraint keeps its terms, or has one more, for a variable that it did not mention.
  obtain ⟨c, hc, ⟨-, hnone, rfl⟩ | ⟨-, n, name, hn, rfl⟩⟩ := h.constraint_cases hd
  · refine ⟨d, hc, fun j => ?_⟩
    rw [if_neg (by rw [hnone]; simp)]
  · refine ⟨c, hc, fun j => ?_⟩
    have hfresh : ∀ t ∈ c.expression.terms, t.var.index ≠ n := by
      intro t ht
      have := hM.constraints c (List.mem_of_getElem? hc) t ht
      have := (h.column_bounds hn).1
      omega
    have hpush := Expression.coefficientAt_push (v := ⟨n, name⟩) hfresh coefficient j
    simp only [hn, Option.some.injEq, eq_comm (a := n)]
    exact hpush

/-- A constraint of the new model has the bound of one of the model, and the same coefficients apart
from the new variables. -/
theorem exists_constraint (h : M.Attached coefficient chosen N columns) (hM : M.Scoped) {k : ℕ}
    {d : Constraint α} (hd : N.constraints[k]? = some d) :
    ∃ c, M.constraints[k]? = some c ∧ d.bound = c.bound ∧
      ∀ j < M.vars.length, d.expression.coefficientAt j = c.expression.coefficientAt j := by
  obtain ⟨c, hc, hcases⟩ := h.constraint_cases hd
  obtain ⟨c', hc', hcoefficients⟩ := h.coefficientAt hM hd
  rw [hc] at hc'
  cases hc'
  refine ⟨c, hc, ?_, fun j hj => ?_⟩
  · rcases hcases with ⟨-, -, rfl⟩ | ⟨-, n, name, -, rfl⟩
    · rfl
    · rfl
  · rw [hcoefficients, if_neg]
    intro hcolumn
    have hbounds := h.column_bounds hcolumn
    omega

/-- A column that is given stands in its constraint only. -/
theorem coefficientAt_column (h : M.Attached coefficient chosen N columns) (hM : M.Scoped)
    {k n : ℕ} (hn : columns[k]? = some (some n)) {i : ℕ} {d : Constraint α}
    (hd : N.constraints[i]? = some d) :
    d.expression.coefficientAt n = if i = k then coefficient else 0 := by
  obtain ⟨c, hc, hcoefficient⟩ := h.coefficientAt hM hd
  have hzero : c.expression.coefficientAt n = 0 :=
    (hM.constraints c (List.mem_of_getElem? hc)).coefficientAt_of_le (h.column_bounds hn).1
  rw [hcoefficient, hzero]
  by_cases hik : i = k
  · rw [if_pos hik, hik, if_pos hn]
  · rw [if_neg hik, if_neg fun hi => hik (h.eq_of_column_eq hi hn)]

/-- The variables of the new model's expressions exist. -/
theorem model_scoped (h : M.Attached coefficient chosen N columns) (hM : M.Scoped) : N.Scoped := by
  refine ⟨fun d hmem => ?_, fun o ho => ?_⟩
  · obtain ⟨k, hd⟩ := List.getElem?_of_mem hmem
    obtain ⟨c, hc, ⟨-, -, rfl⟩ | ⟨-, n, name, hn, rfl⟩⟩ := h.constraint_cases hd
    · exact (hM.constraints d (List.mem_of_getElem? hc)).mono h.width_le
    · have hold := hM.constraints c (List.mem_of_getElem? hc)
      obtain ⟨hle, hlt⟩ := h.column_bounds hn
      have hfresh : ∀ t ∈ c.expression.terms, t.var.index ≠ n := by
        intro t ht
        have := hold t ht
        omega
      intro t ht
      change t ∈ (c.expression.push coefficient ⟨n, name⟩).terms at ht
      rw [Expression.terms_push_of_ne (v := ⟨n, name⟩) hfresh] at ht
      rcases List.mem_append.1 ht with hterm | hnew
      · exact lt_of_lt_of_le (hold t hterm) h.width_le
      · rw [List.mem_singleton.1 hnew]
        exact hlt
  · rw [h.objective] at ho
    exact (hM.objective o ho).mono h.width_le

/-- What absorbing a column keeps of a constraint holds of the constraints of the new model. -/
theorem forall_constraints (h : M.Attached coefficient chosen N columns) {P : Constraint α → Prop}
    (hkeep : ∀ c v, P c → P (c.absorb coefficient v)) (hM : ∀ c ∈ M.constraints, P c) :
    ∀ d ∈ N.constraints, P d := by
  intro d hmem
  obtain ⟨k, hd⟩ := List.getElem?_of_mem hmem
  obtain ⟨c, hc, ⟨-, -, rfl⟩ | ⟨-, n, name, -, rfl⟩⟩ := h.constraint_cases hd
  · exact hM d (List.mem_of_getElem? hc)
  · exact hkeep c _ (hM c (List.mem_of_getElem? hc))

/-- When the constraints with a relation get columns, each constraint of the new model is an
equality, or one of the model with another relation. -/
theorem relation_cases {relation : Relation}
    (h : M.Attached coefficient (M.withRelation relation) N columns) :
    ∀ d ∈ N.constraints, d.relation = .equal ∨ d ∈ M.constraints ∧ d.relation ≠ relation := by
  intro d hmem
  obtain ⟨k, hd⟩ := List.getElem?_of_mem hmem
  obtain ⟨c, hc, ⟨hchosen, -, rfl⟩ | ⟨-, n, name, -, rfl⟩⟩ := h.constraint_cases hd
  · refine Or.inr ⟨List.mem_of_getElem? hc, ?_⟩
    simpa [Model.withRelation, hc] using hchosen
  · exact Or.inl rfl

/-- There is at most one new column for each constraint. -/
theorem width_le_add (h : M.Attached coefficient chosen N columns) :
    N.vars.length ≤ M.vars.length + M.constraints.length := by
  have hlength : columns.reduceOption.length ≤ columns.length := List.reduceOption_length_le columns
  rw [h.reduceOption_columns, List.length_range', h.length_columns] at hlength
  omega

/-- The constraints that get a column are the chosen ones. -/
theorem map_isSome (h : M.Attached coefficient chosen N columns) :
    columns.map Option.isSome = chosen := by
  refine List.ext_getElem (by simp [h.length_columns, h.length_chosen]) fun k hk hk' => ?_
  rw [List.length_map, h.length_columns] at hk
  have hchosen : chosen[k]? = some chosen[k] := List.getElem?_eq_getElem hk'
  have hc : M.constraints[k]? = some M.constraints[k] := List.getElem?_eq_getElem hk
  rw [List.getElem_map]
  cases hb : chosen[k] with
  | false =>
    rw [hb] at hchosen
    rw [(List.getElem?_eq_some_iff.1 (h.kept k _ hc hchosen).2).2]
    rfl
  | true =>
    rw [hb] at hchosen
    obtain ⟨n, name, -, hn⟩ := h.absorbed k _ hc hchosen
    rw [(List.getElem?_eq_some_iff.1 hn).2]
    rfl

/-- There is a new column for each chosen constraint. -/
theorem width_eq (h : M.Attached coefficient chosen N columns) :
    N.vars.length = M.vars.length + chosen.count true := by
  have hle := h.width_le
  have hcount : columns.reduceOption.length = chosen.count true := by
    rw [← h.map_isSome, List.reduceOption_length_eq, List.count, List.countP_map,
      List.countP_eq_length_filter]
    congr 2
    funext x
    cases x <;> rfl
  rw [h.reduceOption_columns, List.length_range'] at hcount
  omega

/-- When the constraints with a relation get columns, these become equalities. -/
theorem map_relation {relation : Relation}
    (h : M.Attached coefficient (M.withRelation relation) N columns) :
    N.constraints.map (·.relation) = (M.constraints.map (·.relation)).map fun r =>
      if r = relation then .equal else r := by
  refine List.ext_getElem (by simp [h.length_constraints]) fun k hk _ => ?_
  rw [List.length_map] at hk
  obtain ⟨c, hc, hcases⟩ := h.constraint_cases (List.getElem?_eq_getElem hk)
  obtain ⟨hlt, rfl⟩ := List.getElem?_eq_some_iff.1 hc
  simp only [List.getElem_map]
  rcases hcases with ⟨hchosen, -, hsame⟩ | ⟨hchosen, n, name, -, habsorbed⟩
  · have hne : M.constraints[k].relation ≠ relation := by
      simpa [Model.withRelation, hc] using hchosen
    rw [hsame, if_neg hne]
  · have heq : M.constraints[k].relation = relation := by
      simpa [Model.withRelation, hc] using hchosen
    rw [habsorbed, if_pos heq]
    rfl

end Model.Attached

/-- The column stands in the constraint with coefficient one, and in no other constraint. -/
structure Model.UnitColumn (M : Model α) (k n : ℕ) : Prop where
  /-- The column is one of the variables. -/
  lt_width : n < M.vars.length
  /-- The coefficients are those of a unit vector. -/
  coefficientAt : ∀ (i : ℕ) (c : Constraint α), M.constraints[i]? = some c →
    c.expression.coefficientAt n = if i = k then 1 else 0

namespace Model.Attached

variable {M N : Model α} {chosen : List Bool} {columns : List (Option ℕ)}

/-- A column given with coefficient one is a unit vector. -/
theorem unitColumn (h : M.Attached 1 chosen N columns) (hM : M.Scoped) {k n : ℕ}
    (hn : columns[k]? = some (some n)) : N.UnitColumn k n :=
  ⟨(h.column_bounds hn).2, fun _ _ hd => h.coefficientAt_column hM hn hd⟩

/-- A unit vector stays one when further columns are given. -/
theorem unitColumn_of_unitColumn {coefficient : α} (h : M.Attached coefficient chosen N columns)
    (hM : M.Scoped) {k n : ℕ} (hn : M.UnitColumn k n) : N.UnitColumn k n := by
  refine ⟨lt_of_lt_of_le hn.lt_width h.width_le, fun i d hd => ?_⟩
  obtain ⟨c, hc, -, hsame⟩ := h.exists_constraint hM hd
  rw [hsame n hn.lt_width, hn.coefficientAt i c hc]

end Model.Attached

end Attached

/-! ## The slack of a constraint -/

namespace Constraint

/-- The condition of a constraint, where an equality may be missed by a gap, and an inequality by an
excess more. -/
def HoldsWithin (c : Constraint ℚ) (gap excess : ℚ) (width : ℕ) (x : ℕ → ℚ) : Prop :=
  match c.relation with
  | .atMost => -(gap + excess) ≤ c.slack width x
  | .atLeast => c.slack width x ≤ gap + excess
  | .equal => |c.slack width x| ≤ gap

/-- Without a gap and an excess this is the condition of the constraint, which is on the sign of the
slack. -/
theorem holdsWithin_zero_iff (c : Constraint ℚ) (width : ℕ) (x : ℕ → ℚ) :
    c.HoldsWithin 0 0 width x ↔ c.Holds width x := by
  unfold HoldsWithin Holds slack
  cases c.relation with
  | atMost =>
    dsimp only
    rw [add_zero, neg_zero, sub_nonneg]
  | atLeast =>
    dsimp only
    rw [add_zero, sub_nonpos]
  | equal =>
    dsimp only
    rw [abs_nonpos_iff, sub_eq_zero, eq_comm]

/-- An equality is missed by no more than the gap. -/
theorem holdsWithin_of_equal {c : Constraint ℚ} (h : c.relation = .equal) (gap excess : ℚ)
    (width : ℕ) (x : ℕ → ℚ) : c.HoldsWithin gap excess width x ↔ |c.slack width x| ≤ gap := by
  unfold HoldsWithin
  rw [h]

/-- What holds within a gap and an excess is satisfied within a tolerance at a point where the slack
differs by no more than the rest of the tolerance. -/
theorem HoldsWithin.satisfiedWithin {c : Constraint ℚ} {gap excess tolerance : ℚ} {width : ℕ}
    {x y : ℕ → ℚ} (h : c.HoldsWithin gap excess width x) (hexcess : 0 ≤ excess)
    (hclose : |c.slack width x - c.slack width y| ≤ tolerance - (gap + excess)) :
    c.SatisfiedWithin tolerance width y := by
  obtain ⟨hbelow, habove⟩ := abs_le.1 hclose
  unfold HoldsWithin at h
  unfold SatisfiedWithin
  generalize c.relation = relation at h ⊢
  cases relation with
  | atMost =>
    dsimp only at h ⊢
    linarith
  | atLeast =>
    dsimp only at h ⊢
    linarith
  | equal =>
    dsimp only at h ⊢
    obtain ⟨hleast, hmost⟩ := abs_le.1 h
    exact abs_le.2 ⟨by linarith, by linarith⟩

/-- Only the values below the width matter for the slack. -/
theorem slack_congr (c : Constraint ℚ) {width : ℕ} {x y : ℕ → ℚ} (h : ∀ j < width, x j = y j) :
    c.slack width x = c.slack width y := by
  unfold slack
  rw [Expression.linear_congr _ h]

/-- Beyond the variables of a constraint the width does not matter for the slack. -/
theorem slack_of_within {c : Constraint ℚ} {n k : ℕ} (h : c.expression.Within n) (hnk : n ≤ k)
    (x : ℕ → ℚ) : c.slack k x = c.slack n x := by
  unfold slack
  rw [h.linear_eq hnk]

/-- Beyond the variables of a constraint the width does not matter. -/
theorem holdsWithin_of_within {c : Constraint ℚ} {n k : ℕ} (h : c.expression.Within n)
    (hnk : n ≤ k) (gap excess : ℚ) (x : ℕ → ℚ) :
    c.HoldsWithin gap excess k x ↔ c.HoldsWithin gap excess n x := by
  unfold HoldsWithin
  rw [slack_of_within h hnk]

/-- Beyond the variables of a constraint the width does not matter. -/
theorem holds_of_within {c : Constraint ℚ} {n k : ℕ} (h : c.expression.Within n) (hnk : n ≤ k)
    (x : ℕ → ℚ) : c.Holds k x ↔ c.Holds n x := by
  rw [← holdsWithin_zero_iff, holdsWithin_of_within h hnk, holdsWithin_zero_iff]

/-- A constraint that absorbs a new column holds within a gap when the column makes up for the slack
but for the gap. -/
theorem holdsWithin_absorb_iff {c : Constraint ℚ} {v : Variable} {n width : ℕ}
    (h : c.expression.Within n) (hn : n ≤ v.index) (hv : v.index < width) (a gap excess : ℚ)
    (x : ℕ → ℚ) :
    (c.absorb a v).HoldsWithin gap excess width x ↔ |c.slack n x - a * x v.index| ≤ gap := by
  have hfresh : ∀ t ∈ c.expression.terms, t.var.index ≠ v.index := by
    intro t ht
    have := h t ht
    omega
  have hslack : (c.absorb a v).slack width x = c.slack n x - a * x v.index := by
    rw [← slack_of_within h (hn.trans hv.le)]
    unfold slack absorb
    dsimp only
    rw [Expression.linear_push hfresh hv, Expression.constant_push]
    ring
  rw [holdsWithin_of_equal rfl, hslack]

/-- A constraint that absorbs a new column holds when the column makes up for the slack. -/
theorem holds_absorb_iff {c : Constraint ℚ} {v : Variable} {n width : ℕ}
    (h : c.expression.Within n) (hn : n ≤ v.index) (hv : v.index < width) (a : ℚ) (x : ℕ → ℚ) :
    (c.absorb a v).Holds width x ↔ c.slack n x = a * x v.index := by
  rw [← holdsWithin_zero_iff, holdsWithin_absorb_iff h hn hv, abs_nonpos_iff, sub_eq_zero]

end Constraint

/-! ## Models with the same feasible points -/

namespace Model

/-- A point at which no value is below zero by more than an excess, no equality of the model is
missed by more than a gap, and no inequality by more than both together. -/
def FeasibleWithin (M : Model ℚ) (gap excess : ℚ) (x : ℕ → ℚ) : Prop :=
  (∀ j < M.vars.length, -excess ≤ x j) ∧
    ∀ c ∈ M.constraints, c.HoldsWithin gap excess M.vars.length x

/-- Without a gap and an excess these are the feasible points. -/
theorem feasibleWithin_zero_iff (M : Model ℚ) (x : ℕ → ℚ) :
    M.FeasibleWithin 0 0 x ↔ M.Feasible x := by
  unfold FeasibleWithin Feasible
  rw [neg_zero]
  exact and_congr_right fun _ => forall₂_congr fun c _ => c.holdsWithin_zero_iff _ x

/-- Only the values of the model's variables matter for a gap and an excess. -/
theorem feasibleWithin_congr (M : Model ℚ) {gap excess : ℚ} {x y : ℕ → ℚ}
    (h : ∀ j < M.vars.length, x j = y j) :
    M.FeasibleWithin gap excess x ↔ M.FeasibleWithin gap excess y := by
  refine and_congr (forall₂_congr fun j hj => by rw [h j hj]) (forall₂_congr fun c _ => ?_)
  unfold Constraint.HoldsWithin
  rw [c.slack_congr h]

/-- The feasible points of `N` are those of `M` with values for further variables, and a point that
misses the conditions of `N` by a gap and an excess misses those of `M` by no more. -/
structure Extends (M N : Model ℚ) : Prop where
  /-- The variables of `M` are among those of `N`. -/
  width_le : M.vars.length ≤ N.vars.length
  /-- A point that is feasible for `N` within a gap and an excess is so for `M`. -/
  restrict_within : ∀ gap excess y, N.FeasibleWithin gap excess y → M.FeasibleWithin gap excess y
  /-- A feasible point of `M` has values for the further variables. -/
  extend : ∀ x, M.Feasible x → ∃ y, N.Feasible y ∧ ∀ j < M.vars.length, y j = x j

/-- A feasible point of `N` is one of `M`. -/
theorem Extends.restrict {M N : Model ℚ} (h : M.Extends N) (y : ℕ → ℚ) (hy : N.Feasible y) :
    M.Feasible y :=
  (M.feasibleWithin_zero_iff y).1
    (h.restrict_within 0 0 y ((N.feasibleWithin_zero_iff y).2 hy))

/-- To have the same feasible points is transitive. -/
theorem Extends.trans {M N O : Model ℚ} (h : M.Extends N) (k : N.Extends O) : M.Extends O := by
  refine ⟨h.width_le.trans k.width_le,
    fun gap excess y hy => h.restrict_within gap excess y (k.restrict_within gap excess y hy),
    fun x hx => ?_⟩
  obtain ⟨y, hy, hyx⟩ := h.extend x hx
  obtain ⟨z, hz, hzy⟩ := k.extend y hy
  refine ⟨z, hz, fun j hj => ?_⟩
  rw [hzy j (lt_of_lt_of_le hj h.width_le), hyx j hj]

/-- Rewriting each constraint into one with the same condition keeps the feasible points, whatever
the objective. -/
theorem extends_map (M : Model ℚ) (f : Constraint ℚ → Constraint ℚ)
    (hf : ∀ c gap excess width x,
      (f c).HoldsWithin gap excess width x ↔ c.HoldsWithin gap excess width x)
    (objective : Option (Objective ℚ)) :
    M.Extends { M with constraints := M.constraints.map f, objective } := by
  have hiff : ∀ gap excess x,
      FeasibleWithin { M with constraints := M.constraints.map f, objective } gap excess x ↔
        M.FeasibleWithin gap excess x := by
    intro gap excess x
    refine and_congr Iff.rfl ?_
    simp only [List.forall_mem_map, hf]
  refine ⟨le_rfl, fun gap excess y hy => (hiff gap excess y).1 hy,
    fun x hx => ⟨x, ?_, fun _ _ => rfl⟩⟩
  rw [← feasibleWithin_zero_iff] at hx ⊢
  exact (hiff 0 0 x).2 hx

namespace Attached

variable {M N : Model ℚ} {coefficient : ℚ} {chosen : List Bool} {columns : List (Option ℕ)}

/-- Each new column can be given a value by the one constraint that has it. -/
theorem exists_values (h : M.Attached coefficient chosen N columns) (f : ℕ → ℚ) :
    ∃ v : ℕ → ℚ, ∀ k n : ℕ, columns[k]? = some (some n) → v n = f k := by
  have hvalue : ∀ n, ∃ value : ℚ, ∀ k : ℕ, columns[k]? = some (some n) → value = f k := by
    intro n
    by_cases hex : ∃ k : ℕ, columns[k]? = some (some n)
    · obtain ⟨k, hk⟩ := hex
      refine ⟨f k, fun i hi => ?_⟩
      rw [h.eq_of_column_eq hi hk]
    · exact ⟨0, fun k hk => absurd ⟨k, hk⟩ hex⟩
  choose v hv using hvalue
  exact ⟨v, fun k n hk => hv n k hk⟩

/-- A point that is feasible for the new model within a gap and an excess is so for the model, when
the condition of a chosen constraint is that the multiple of its slack is not below zero by more
than both together. -/
theorem feasibleWithin_of_feasibleWithin (h : M.Attached coefficient chosen N columns)
    (hM : M.Scoped) (hunit : coefficient * coefficient = 1)
    (hsign : ∀ (k : ℕ) (c : Constraint ℚ), M.constraints[k]? = some c → chosen[k]? = some true →
      ∀ gap excess width x,
        c.HoldsWithin gap excess width x ↔ -(gap + excess) ≤ coefficient * c.slack width x)
    {gap excess : ℚ} {y : ℕ → ℚ} (hy : N.FeasibleWithin gap excess y) :
    M.FeasibleWithin gap excess y := by
  refine ⟨fun j hj => hy.1 j (lt_of_lt_of_le hj h.width_le), fun c hmem => ?_⟩
  have hwithin := hM.constraints c hmem
  obtain ⟨k, hc⟩ := List.getElem?_of_mem hmem
  have hk : k < chosen.length := by
    rw [h.length_chosen]
    exact (List.getElem?_eq_some_iff.1 hc).1
  have hget := List.getElem?_eq_getElem hk
  cases hb : chosen[k] with
  | false =>
    rw [hb] at hget
    obtain ⟨hsame, -⟩ := h.kept k c hc hget
    exact (Constraint.holdsWithin_of_within hwithin h.width_le gap excess y).1
      (hy.2 c (List.mem_of_getElem? hsame))
  | true =>
    -- The slack is close to the multiple of the new column's value, which is not below the excess.
    rw [hb] at hget
    obtain ⟨n, name, hsame, hn⟩ := h.absorbed k c hc hget
    obtain ⟨hle, hlt⟩ := h.column_bounds hn
    have hclose := (Constraint.holdsWithin_absorb_iff hwithin hle hlt coefficient gap excess y).1
      (hy.2 _ (List.mem_of_getElem? hsame))
    have hnear : |coefficient * c.slack M.vars.length y - y n| ≤ gap := by
      have hone : |coefficient| = 1 := by
        rw [← abs_mul_abs_self, ← sq] at hunit
        exact (pow_eq_one_iff_of_nonneg (abs_nonneg _) two_ne_zero).1 hunit
      calc |coefficient * c.slack M.vars.length y - y n|
          = |coefficient * (c.slack M.vars.length y - coefficient * y n)| := by
            rw [mul_sub, ← mul_assoc, hunit, one_mul]
        _ = |c.slack M.vars.length y - coefficient * y n| := by rw [abs_mul, hone, one_mul]
        _ ≤ gap := hclose
    rw [hsign k c hc hget]
    have hvalue := hy.1 n hlt
    have hleast := (abs_le.1 hnear).1
    linarith

/-- A feasible point of the model has values for the new columns, when the condition of a chosen
constraint is that the multiple of its slack is not negative. -/
theorem exists_feasible (h : M.Attached coefficient chosen N columns) (hM : M.Scoped)
    (hunit : coefficient * coefficient = 1)
    (hsign : ∀ (k : ℕ) (c : Constraint ℚ), M.constraints[k]? = some c → chosen[k]? = some true →
      ∀ width x, c.Holds width x ↔ 0 ≤ coefficient * c.slack width x) {x : ℕ → ℚ}
    (hx : M.Feasible x) : ∃ y, N.Feasible y ∧ ∀ j < M.vars.length, y j = x j := by
  -- The value of a new column is the multiple of the slack of the one constraint that has it.
  obtain ⟨v, hv⟩ := h.exists_values fun k =>
    (M.constraints[k]?).elim 0 fun c => coefficient * c.slack M.vars.length x
  have hvalue : ∀ (k n : ℕ) (c : Constraint ℚ), M.constraints[k]? = some c →
      columns[k]? = some (some n) → v n = coefficient * c.slack M.vars.length x := by
    intro k n c hc hn
    rw [hv k n hn, hc]
    rfl
  let y : ℕ → ℚ := fun j => if j < M.vars.length then x j else v j
  have hold : ∀ j < M.vars.length, y j = x j := fun j hj => if_pos hj
  have hnew : ∀ j, M.vars.length ≤ j → y j = v j := fun j hj => if_neg (not_lt.2 hj)
  refine ⟨y, ⟨fun j hj => ?_, fun d hmem => ?_⟩, hold⟩
  · rcases lt_or_ge j M.vars.length with hlt | hge
    · rw [hold j hlt]
      exact hx.1 j hlt
    · obtain ⟨k, hk⟩ := List.getElem?_of_mem ((h.mem_columns_iff j).2 ⟨hge, hj⟩)
      have hlt : k < N.constraints.length := by
        rw [h.length_constraints, ← h.length_columns]
        exact (List.getElem?_eq_some_iff.1 hk).1
      obtain ⟨c, hc, ⟨-, hnone, -⟩ | ⟨hchosen, -⟩⟩ :=
        h.constraint_cases (List.getElem?_eq_getElem hlt)
      · rw [hk] at hnone
        exact absurd hnone (by simp)
      · rw [hnew j hge, hvalue k j c hc hk, ← hsign k c hc hchosen]
        exact hx.2 c (List.mem_of_getElem? hc)
  · obtain ⟨k, hd⟩ := List.getElem?_of_mem hmem
    obtain ⟨c, hc, ⟨-, -, rfl⟩ | ⟨hchosen, n, name, hn, rfl⟩⟩ := h.constraint_cases hd
    · have hmem' := List.mem_of_getElem? hc
      rw [Constraint.holds_of_within (hM.constraints d hmem') h.width_le, d.holds_congr hold]
      exact hx.2 d hmem'
    · obtain ⟨hle, hlt⟩ := h.column_bounds hn
      have hwithin := hM.constraints c (List.mem_of_getElem? hc)
      rw [Constraint.holds_absorb_iff hwithin hle hlt, hnew n hle, hvalue k n c hc hn, ← mul_assoc,
        hunit, one_mul, c.slack_congr hold]

/-- Giving columns to constraints whose condition is that the multiple of the slack is not negative
keeps the feasible points. -/
theorem model_extends (h : M.Attached coefficient chosen N columns) (hM : M.Scoped)
    (hunit : coefficient * coefficient = 1)
    (hsign : ∀ (k : ℕ) (c : Constraint ℚ), M.constraints[k]? = some c → chosen[k]? = some true →
      ∀ gap excess width x,
        c.HoldsWithin gap excess width x ↔ -(gap + excess) ≤ coefficient * c.slack width x) :
    M.Extends N := by
  refine ⟨h.width_le, fun _ _ _ hy => h.feasibleWithin_of_feasibleWithin hM hunit hsign hy,
    fun _ hx => h.exists_feasible hM hunit (fun k c hc hk width x => ?_) hx⟩
  rw [← c.holdsWithin_zero_iff, hsign k c hc hk 0 0, add_zero, neg_zero]

/-- A feasible point of the new model has no choice for the values of the new columns: each is the
one number that makes up for the slack of its constraint. -/
theorem eq_of_feasible (h : M.Attached coefficient chosen N columns) (hM : M.Scoped)
    (hunit : coefficient * coefficient = 1) {y z : ℕ → ℚ} (hy : N.Feasible y) (hz : N.Feasible z)
    (hold : ∀ j < M.vars.length, y j = z j) : ∀ j < N.vars.length, y j = z j := by
  intro j hj
  rcases lt_or_ge j M.vars.length with hlt | hge
  · exact hold j hlt
  obtain ⟨k, hk⟩ := List.getElem?_of_mem ((h.mem_columns_iff j).2 ⟨hge, hj⟩)
  have hlt : k < N.constraints.length := by
    rw [h.length_constraints, ← h.length_columns]
    exact (List.getElem?_eq_some_iff.1 hk).1
  have hmem := List.getElem_mem hlt
  obtain ⟨c, hc, ⟨-, hnone, -⟩ | ⟨-, n, name, hn, hd⟩⟩ :=
    h.constraint_cases (List.getElem?_eq_getElem hlt)
  · rw [hk] at hnone
    exact absurd hnone (by simp)
  · have hnj : j = n := by simpa [hk] using hn
    subst hnj
    rw [hd] at hmem
    have hwithin := hM.constraints c (List.mem_of_getElem? hc)
    have hvalue : ∀ x, N.Feasible x → coefficient * c.slack M.vars.length x = x j := by
      intro x hx
      rw [(Constraint.holds_absorb_iff hwithin hge hj coefficient x).1 (hx.2 _ hmem), ← mul_assoc,
        hunit, one_mul]
    rw [← hvalue y hy, ← hvalue z hz, c.slack_congr hold]

end Attached

/-- A model with equalities only, without constants and with bounds that are not negative. -/
structure IsStandard (M : Model ℚ) : Prop extends M.Scoped where
  /-- Every constraint is an equality. -/
  relation_eq : ∀ c ∈ M.constraints, c.relation = .equal
  /-- No constraint has a constant. -/
  constant_eq : ∀ c ∈ M.constraints, c.expression.constant = 0
  /-- No bound is negative. -/
  bound_nonneg : ∀ c ∈ M.constraints, 0 ≤ c.bound

end Model

end LinProg
