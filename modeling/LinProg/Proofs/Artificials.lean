import LinProg.PhaseOne
import LinProg.Proofs.Pricing
import LinProg.Proofs.FirstTableau

/-!
# The program of phase one

Phase one gives an artificial variable to each constraint without a slack, and its objective is the
negated total of these. `ProgramShape` says what this program is in any arithmetic: the artificial
variables are the columns from the width of the standard form on, and each constraint has a unit
column, its slack or its artificial variable, which becomes basic once the artificial columns are
priced out (`ProgramShape.exists_becomesBasic`).

`ProgramOf` adds what holds over exact numbers: the constraints are those of the standard form below
its width, and the coefficients of the objective are minus one from there on. The objective is never
refused, so there is such a program (`exists_phaseOneProgram`), and it has a first tableau unless it
has more variables than can be addressed (`ProgramOf.exists_pricedTableau`).

Without tolerance the first tableau is canonical (`ProgramOf.startOf`), and its objective is the
negated total (`StartOf.objectiveAt_eq`). It cannot exceed zero, and it is zero at the feasible
points of the standard form, with which the program shares its points where the artificial variables
are zero (`ProgramOf.feasible_iff`). Where they are not, the standard form is missed by no more than
their values (`ProgramOf.abs_slack_le`). -/

namespace LinProg

/-! ## The total of the artificial variables -/

section Shape

variable {α : Type} [Scalar α]

namespace Expression

/-- Zero less each of the variables. -/
def negatedTotal (vs : List Variable) : Expression α :=
  vs.foldl (fun sum v => sum.subtract (.ofVariable v)) Expression.empty

/-- Taking away variables that do not come up yet adds a term for each. -/
theorem terms_foldl_subtract (vs : List Variable) (e : Expression α)
    (hnodup : (vs.map (·.index)).Nodup)
    (hfresh : ∀ v ∈ vs, ∀ t ∈ e.terms, t.var.index ≠ v.index) :
    (vs.foldl (fun sum v => sum.subtract (.ofVariable v)) e).terms =
      e.terms ++ vs.map fun v => ⟨-1 * 1, v⟩ := by
  induction vs generalizing e with
  | nil => simp
  | cons v vs ih =>
    obtain ⟨hv, hrest⟩ := List.nodup_cons.1 (by simpa using hnodup :
      (v.index :: vs.map (·.index)).Nodup)
    have hterms : (e.subtract (.ofVariable v)).terms = e.terms ++ [⟨-1 * 1, v⟩] :=
      terms_push_of_ne (hfresh v (by simp)) (-1 * 1)
    have hfresh' : ∀ w ∈ vs, ∀ t ∈ (e.subtract (.ofVariable v)).terms, t.var.index ≠ w.index := by
      intro w hw t ht
      rw [hterms] at ht
      rcases List.mem_append.1 ht with hold | hnew
      · exact hfresh w (by simp [hw]) t hold
      · rw [List.mem_singleton.1 hnew]
        intro heq
        exact hv (List.mem_map.2 ⟨w, hw, heq.symm⟩)
    rw [List.foldl_cons, ih _ hrest hfresh', hterms, List.append_assoc]
    rfl

/-- When every term has the same coefficient, it is the coefficient at each index that comes up. -/
theorem coefficientAt_of_forall_eq {e : Expression α} {a : α}
    (h : ∀ t ∈ e.terms, t.coefficient = a) {j : ℕ} (hj : ∃ t ∈ e.terms, t.var.index = j) :
    e.coefficientAt j = a := by
  have hfold : ∀ (terms : List (Term α)) (b : α), (∀ t ∈ terms, t.coefficient = a) →
      (b = a ∨ ∃ t ∈ terms, t.var.index = j) →
        terms.foldl (fun b t => if t.var.index = j then t.coefficient else b) b = a := by
    intro terms
    induction terms with
    | nil =>
      intro b _ hb
      exact hb.resolve_right (by simp)
    | cons t terms ih =>
      intro b hall hb
      rw [List.foldl_cons]
      apply ih _ fun s hs => hall s (by simp [hs])
      by_cases ht : t.var.index = j
      · exact Or.inl (by rw [if_pos ht, hall t (by simp)])
      · rw [if_neg ht]
        rcases hb with hb | ⟨s, hs, hsj⟩
        · exact Or.inl hb
        · rcases List.mem_cons.1 hs with rfl | hs
          · exact absurd hsj ht
          · exact Or.inr ⟨s, hs, hsj⟩
  exact hfold e.terms 0 h (Or.inr hj)

end Expression

/-- The artificial variables, by the columns that the constraints got. -/
def artificialsOf (columns : List (Option ℕ)) : List Artificial :=
  columns.zipIdx.filterMap fun (column?, i) =>
    column?.map fun column => Artificial.mk (i + 1) column

/-- An artificial variable stands in the row of the constraint that got its column. -/
theorem mem_artificialsOf_iff (columns : List (Option ℕ)) (a : Artificial) :
    a ∈ artificialsOf columns ↔ ∃ k : ℕ, columns[k]? = some (some a.column) ∧ a.row = k + 1 := by
  unfold artificialsOf
  rw [List.mem_filterMap]
  constructor
  · rintro ⟨⟨column?, k⟩, hmem, ha⟩
    obtain ⟨column, rfl, rfl⟩ := Option.map_eq_some_iff.1 ha
    exact ⟨k, List.mem_zipIdx_iff_getElem?.1 hmem, rfl⟩
  · rintro ⟨k, hk, hrow⟩
    refine ⟨(some a.column, k), List.mem_zipIdx_iff_getElem?.2 hk, ?_⟩
    simp [← hrow]

/-- The columns of the artificial variables, in order. -/
theorem map_column_artificialsOf (columns : List (Option ℕ)) :
    (artificialsOf columns).map (·.column) = columns.reduceOption := by
  have hfst : columns.zipIdx.map Prod.fst = columns := List.zipIdx_map_fst ..
  conv_rhs => rw [← hfst]
  unfold artificialsOf List.reduceOption
  rw [List.map_filterMap]
  rw [List.filterMap_map]
  congr 1
  funext p
  simp [Option.map_map, Function.comp_def]

section Attached

variable {M N : Model α} {coefficient : α} {chosen : List Bool} {columns : List (Option ℕ)}

/-- A new variable stands at the index that it has. -/
theorem Model.Attached.getElem?_vars (h : M.Attached coefficient chosen N columns) {v : Variable}
    (hv : v ∈ N.vars.drop M.vars.length) : N.vars[v.index]? = some v := by
  obtain ⟨k, hk⟩ := List.getElem?_of_mem hv
  have hmap : ((N.vars.drop M.vars.length).map (·.index))[k]? = some v.index := by
    rw [List.getElem?_map, hk]
    rfl
  rw [h.map_index] at hmap
  have hindex : v.index = M.vars.length + k := by
    obtain ⟨hlt, heq⟩ := List.getElem?_eq_some_iff.1 hmap
    rw [List.getElem_range'] at heq
    omega
  rw [hindex, ← List.getElem?_drop]
  exact hk

/-- The new variables have consecutive numbers, so each of them adds a term of its own to the
negated total. -/
theorem Model.Attached.terms_negatedTotal (h : M.Attached coefficient chosen N columns) :
    (Expression.negatedTotal (N.vars.drop M.vars.length) : Expression α).terms =
      (N.vars.drop M.vars.length).map fun v => ⟨-1 * 1, v⟩ := by
  have hnodup : ((N.vars.drop M.vars.length).map (·.index)).Nodup := by
    rw [h.map_index]
    exact List.nodup_range'
  exact Expression.terms_foldl_subtract _ Expression.empty hnodup (by simp [Expression.empty])

/-- The negated total belongs to the model that has the new variables. -/
theorem Model.Attached.getElem?_vars_negatedTotal (h : M.Attached coefficient chosen N columns) :
    ∀ t ∈ (Expression.negatedTotal (N.vars.drop M.vars.length) : Expression α).terms,
      N.vars[t.var.index]? = some t.var := by
  intro t ht
  rw [h.terms_negatedTotal] at ht
  obtain ⟨v, hv, rfl⟩ := List.mem_map.1 ht
  exact h.getElem?_vars hv

/-- The negated total mentions the new variables, and no other. -/
theorem Model.Attached.exists_mem_negatedTotal_iff (h : M.Attached coefficient chosen N columns)
    (j : ℕ) :
    (∃ t ∈ (Expression.negatedTotal (N.vars.drop M.vars.length) : Expression α).terms,
        t.var.index = j) ↔ M.vars.length ≤ j ∧ j < N.vars.length := by
  have hindices : (Expression.negatedTotal (N.vars.drop M.vars.length) : Expression α).terms.map
      (·.var.index) = List.range' M.vars.length (N.vars.length - M.vars.length) := by
    rw [h.terms_negatedTotal, List.map_map, ← h.map_index]
    rfl
  have hle := h.width_le
  rw [← List.mem_map, hindices, List.mem_range'_1]
  omega

/-- The coefficients of the negated total are zero before the new variables. -/
theorem Model.Attached.coefficientAt_negatedTotal_of_lt
    (h : M.Attached coefficient chosen N columns) {j : ℕ} (hj : j < M.vars.length) :
    (Expression.negatedTotal (N.vars.drop M.vars.length) : Expression α).coefficientAt j = 0 := by
  apply Expression.coefficientAt_of_ne
  intro t ht hindex
  have := ((h.exists_mem_negatedTotal_iff j).1 ⟨t, ht, hindex⟩).1
  omega

/-- An artificial variable is a unit column in the row of a constraint that was chosen. -/
theorem Model.Attached.exists_row_of_mem (h : M.Attached 1 chosen N columns) (hM : M.Scoped)
    {a : Artificial} (ha : a ∈ artificialsOf columns) :
    ∃ k < N.constraints.length, a.row = k + 1 ∧ N.UnitColumn k a.column ∧
      chosen[k]? = some true := by
  obtain ⟨k, hk, hrow⟩ := (mem_artificialsOf_iff columns a).1 ha
  have hlt : k < N.constraints.length := by
    rw [h.length_constraints, ← h.length_columns]
    exact (List.getElem?_eq_some_iff.1 hk).1
  obtain ⟨c, hc, ⟨-, hnone, -⟩ | ⟨hchosen, -⟩⟩ :=
    h.constraint_cases (List.getElem?_eq_getElem hlt)
  · rw [hk] at hnone
    exact absurd hnone (by simp)
  · exact ⟨k, hlt, hrow, h.unitColumn hM hk, hchosen⟩

/-- A constraint that was chosen has an artificial variable. -/
theorem Model.Attached.exists_artificial (h : M.Attached 1 chosen N columns) {k : ℕ}
    (hchosen : chosen[k]? = some true) : ∃ a ∈ artificialsOf columns, a.row = k + 1 := by
  have hlt : k < M.constraints.length := by
    rw [← h.length_chosen]
    exact (List.getElem?_eq_some_iff.1 hchosen).1
  obtain ⟨n, name, -, hn⟩ := h.absorbed k _ (List.getElem?_eq_getElem hlt) hchosen
  exact ⟨⟨k + 1, n⟩, (mem_artificialsOf_iff columns _).2 ⟨k, hn, rfl⟩, rfl⟩

/-- Two artificial variables in one row have the same column. -/
theorem column_eq_of_row_eq {a b : Artificial} (ha : a ∈ artificialsOf columns)
    (hb : b ∈ artificialsOf columns) (hab : a.row = b.row) : a.column = b.column := by
  obtain ⟨k, hk, hrow⟩ := (mem_artificialsOf_iff columns a).1 ha
  obtain ⟨l, hl, hrow'⟩ := (mem_artificialsOf_iff columns b).1 hb
  have hkl : k = l := by omega
  rw [← hkl, hk] at hl
  exact Option.some.inj (Option.some.inj hl)

/-- What the program of phase one is, whatever the numbers of the standard form are. -/
structure ProgramShape (form : StandardForm α) (program : PhaseOneProgram α) : Prop where
  /-- The variables of the expressions exist. -/
  isScoped : program.model.Scoped
  /-- The variables of the standard form come first. -/
  width_le : form.model.vars.length ≤ program.model.vars.length
  /-- There are at most as many artificial variables as constraints. -/
  width_le_add : program.model.vars.length ≤
    form.model.vars.length + form.model.constraints.length
  /-- There are as many constraints. -/
  length_constraints : program.model.constraints.length = form.model.constraints.length
  /-- The objective does not mention the variables of the standard form. -/
  exists_total : ∃ total : Expression α, program.model.objective = some ⟨total, .maximize⟩ ∧
    ∀ j < form.model.vars.length, total.coefficientAt j = 0
  /-- A unit column of the standard form is one of the program. -/
  unitColumn : ∀ k n, form.model.UnitColumn k n → program.model.UnitColumn k n
  /-- The artificial variables are the columns after those of the standard form. -/
  map_column : program.artificials.map (·.column) =
    List.range' form.model.vars.length (program.model.vars.length - form.model.vars.length)
  /-- An artificial variable is a unit column in the row where it starts, which has no slack. -/
  artificial : ∀ a ∈ program.artificials, ∃ k < program.model.constraints.length,
    a.row = k + 1 ∧ program.model.UnitColumn k a.column ∧ form.slacks[k]? = some none
  /-- No row has two artificial variables. -/
  column_eq : ∀ a ∈ program.artificials, ∀ b ∈ program.artificials, a.row = b.row →
    a.column = b.column
  /-- A constraint without a slack has an artificial variable. -/
  exists_artificial : ∀ k : ℕ, form.slacks[k]? = some none →
    ∃ a ∈ program.artificials, a.row = k + 1

/-- The program of phase one gives columns to the constraints without a slack, and makes the negated
total of these as large as possible. -/
theorem StandardForm.exists_attached_phaseOneProgram (form : StandardForm α)
    (hlength : form.slacks.length = form.model.constraints.length) :
    ∃ (N : Model α) (columns : List (Option ℕ)),
      form.model.Attached 1 (form.slacks.map (·.isNone)) N columns ∧
      form.phaseOneProgram = (do
        let model ← N.maximize (Expression.negatedTotal (N.vars.drop form.model.vars.length))
        return ⟨model, artificialsOf columns⟩) :=
  ⟨_, _, form.model.attached_attachColumns 1 "R" (by rw [List.length_map, hlength]), rfl⟩

/-- The program, once its objective was set, has that shape. -/
theorem Model.Attached.programShape {form : StandardForm α} (hform : form.model.Scoped)
    (h : form.model.Attached 1 (form.slacks.map (·.isNone)) N columns) :
    ProgramShape form
      { model := { N with
          objective := some
            { expression := Expression.negatedTotal (N.vars.drop form.model.vars.length)
              direction := .maximize } }
        artificials := artificialsOf columns } := by
  -- The constraints that get a column are those without a slack.
  have hnone : ∀ k : ℕ, (form.slacks.map (·.isNone))[k]? = some true ↔
      form.slacks[k]? = some none := by
    intro k
    simp
  refine ⟨⟨(h.model_scoped hform).constraints, fun o ho => ?_⟩, h.width_le, h.width_le_add,
    h.length_constraints, ⟨_, rfl, fun j hj => h.coefficientAt_negatedTotal_of_lt hj⟩,
    fun k n hn => ?_, ?_, fun a ha => ?_, fun a ha b hb => column_eq_of_row_eq ha hb,
    fun k hk => h.exists_artificial ((hnone k).2 hk)⟩
  · cases ho
    intro t ht
    exact (List.getElem?_eq_some_iff.1 (h.getElem?_vars_negatedTotal t ht)).1
  · have hunit := h.unitColumn_of_unitColumn hform hn
    exact ⟨hunit.lt_width, hunit.coefficientAt⟩
  · rw [map_column_artificialsOf, h.reduceOption_columns]
  · obtain ⟨k, hk, hrow, hunit, hchosen⟩ := h.exists_row_of_mem hform ha
    exact ⟨k, hk, hrow, ⟨hunit.lt_width, hunit.coefficientAt⟩, (hnone k).1 hchosen⟩

/-- A program of phase one has that shape. -/
theorem programShape_of_eq_ok {form : StandardForm α} {program : PhaseOneProgram α}
    (hform : form.model.Scoped) (hlength : form.slacks.length = form.model.constraints.length)
    (h : form.phaseOneProgram = .ok program) : ProgramShape form program := by
  obtain ⟨N, columns, hattached, hprogram⟩ := form.exists_attached_phaseOneProgram hlength
  rw [hprogram] at h
  obtain ⟨model, hmodel, h⟩ := (bind_eq_ok_iff _ _ _).1 h
  cases h
  obtain ⟨-, rfl⟩ := (Model.optimize_eq_ok_iff N model .maximize _).1 hmodel
  exact hattached.programShape hform

end Attached

/-! ## The tableau of the program -/

/-- The places of the artificial variables: the row in which each starts, with its column. -/
def PhaseOneProgram.places (program : PhaseOneProgram α) : List (ℕ × ℕ) :=
  program.artificials.map fun a => (a.row, a.column)

/-- The first tableau of phase one is that of the program, with the artificial columns priced
out. -/
theorem PhaseOneProgram.tableau_eq_bind (program : PhaseOneProgram α) (tolerance : α) :
    program.tableau tolerance = (do
      let first ← program.model.tableau tolerance
      program.places.foldlM (fun T p => T.priceOut p.1 p.2) first) := by
  unfold tableau places
  simp only [List.foldlM_map]

namespace ProgramShape

variable {form : StandardForm α} {program : PhaseOneProgram α} {total : Expression α}
  {first : Tableau α} {tolerance : α} {k : ℕ}

/-- An artificial column comes after those of the standard form. -/
theorem width_le_column (h : ProgramShape form program) {a : Artificial}
    (ha : a ∈ program.artificials) : form.model.vars.length ≤ a.column := by
  have hmem : a.column ∈ program.artificials.map (·.column) := List.mem_map.2 ⟨a, ha, rfl⟩
  rw [h.map_column] at hmem
  exact (List.mem_range'_1.1 hmem).1

/-- The places are in constraint rows of the tableau, in columns of it. -/
theorem place_bounds (h : ProgramShape form program)
    (hfirst : first.FirstOf program.model ⟨total, .maximize⟩ tolerance) {p : ℕ × ℕ}
    (hp : p ∈ program.places) :
    p.1 ≠ 0 ∧ p.1 < first.matrix.height ∧ p.2 < first.columns ∧ first.entry p.1 p.2 = 1 := by
  obtain ⟨a, ha, rfl⟩ := List.mem_map.1 hp
  obtain ⟨k, hk, hrow, hunit, -⟩ := h.artificial a ha
  have hcolumns := hfirst.columns
  have hheight := hfirst.height
  have hlt := hunit.lt_width
  refine ⟨by simp [hrow], by simp only [hrow]; omega, by simp only; omega, ?_⟩
  simp only [hrow]
  rw [hfirst.entry_unitColumn hunit hk _ (Nat.succ_ne_zero k), if_pos rfl]

variable [Scalar.ExactUnits α]

/-- The slack of a constraint is basic from the start, as no artificial variable is in its row. -/
theorem becomesBasic_slack (h : ProgramShape form program)
    (hfirst : first.FirstOf program.model ⟨total, .maximize⟩ tolerance)
    (htotal : ∀ j < form.model.vars.length, total.coefficientAt j = 0)
    (hk : k < program.model.constraints.length) {n : ℕ} (hs : form.slacks[k]? = some (some n))
    (hunit : form.model.UnitColumn k n) : first.BecomesBasic program.places (k + 1) n := by
  have hlt := lt_of_lt_of_le hunit.lt_width h.width_le
  refine ⟨by rw [hfirst.columns]; exact hlt, Nat.succ_ne_zero k,
    hfirst.entry_unitColumn (h.unitColumn k n hunit) hk, fun p hp => ?_, Or.inl ?_⟩
  · obtain ⟨a, ha, rfl⟩ := List.mem_map.1 hp
    obtain ⟨l, -, hrow, -, hnone⟩ := h.artificial a ha
    refine Or.inr ⟨fun heq => ?_, by simp [hrow]⟩
    have hlk : l = k := by
      simp only [hrow] at heq
      omega
    rw [hlk, hs] at hnone
    exact absurd hnone (by simp)
  · rw [hfirst.entry_zero n hlt, htotal n hunit.lt_width]
    exact Scalar.ExactUnits.isZero_neg Scalar.ExactUnits.isZero_zero

omit [Scalar.ExactUnits α] in
/-- Without a slack the artificial variable becomes basic, as it is the only one in its row. -/
theorem exists_becomesBasic_artificial (h : ProgramShape form program)
    (hfirst : first.FirstOf program.model ⟨total, .maximize⟩ tolerance)
    (hk : k < program.model.constraints.length) (hs : form.slacks[k]? = some none) :
    ∃ c, first.BecomesBasic program.places (k + 1) c := by
  obtain ⟨a, ha, hrow⟩ := h.exists_artificial k hs
  obtain ⟨l, -, hrow', hunit, -⟩ := h.artificial a ha
  have hlk : l = k := by omega
  rw [hlk] at hunit
  refine ⟨a.column, by rw [hfirst.columns]; exact hunit.lt_width, Nat.succ_ne_zero k,
    hfirst.entry_unitColumn hunit hk, fun p hp => ?_, Or.inr ⟨_, List.mem_map.2 ⟨a, ha, rfl⟩, rfl⟩⟩
  obtain ⟨b, hb, rfl⟩ := List.mem_map.1 hp
  obtain ⟨m, -, hrowb, -, -⟩ := h.artificial b hb
  by_cases hsame : b.row = k + 1
  · exact Or.inl (h.column_eq b hb a ha (hsame.trans hrow.symm))
  · exact Or.inr ⟨hsame, by simp [hrowb]⟩

/-- Each constraint row has a column that becomes basic: that of the slack of its constraint, or
else that of its artificial variable. -/
theorem exists_becomesBasic (h : ProgramShape form program)
    (hlength : form.slacks.length = form.model.constraints.length)
    (hslack : ∀ k n : ℕ, form.slacks[k]? = some (some n) → form.model.UnitColumn k n)
    (hfirst : first.FirstOf program.model ⟨total, .maximize⟩ tolerance)
    (htotal : ∀ j < form.model.vars.length, total.coefficientAt j = 0)
    {i : ℕ} (hi : i ∈ first.constraintRows) :
    ∃ c, first.BecomesBasic program.places i c := by
  obtain ⟨hne, hlt⟩ := (first.mem_constraintRows i).1 hi
  rcases hfirst.row_cases hne with ⟨k, c, hc, rfl⟩ | hbelow
  · have hk := (List.getElem?_eq_some_iff.1 hc).1
    have hk' : k < form.slacks.length := by
      rw [hlength, ← h.length_constraints]
      exact hk
    have hget := List.getElem?_eq_getElem hk'
    cases hs : form.slacks[k] with
    | some n =>
      rw [hs] at hget
      exact ⟨n, h.becomesBasic_slack hfirst htotal hk hget (hslack k n hget)⟩
    | none =>
      rw [hs] at hget
      exact h.exists_becomesBasic_artificial hfirst hk hget
  · omega

end ProgramShape

end Shape

/-! ## The program over exact numbers -/

/-- What the program of phase one is over exact numbers. -/
structure ProgramOf (form : StandardForm ℚ) (program : PhaseOneProgram ℚ) : Prop
    extends ProgramShape form program where
  /-- The program is in the form that a tableau needs. -/
  standard : program.model.IsStandard
  /-- The constraints are the same, apart from the artificial variables. -/
  constraint : ∀ (k : ℕ) (d : Constraint ℚ), program.model.constraints[k]? = some d →
    ∃ c, form.model.constraints[k]? = some c ∧ d.bound = c.bound ∧
      ∀ j < form.model.vars.length, d.expression.coefficientAt j = c.expression.coefficientAt j
  /-- Where the program holds, a constraint is missed by its artificial variable, or not at all. -/
  slack_eq : ∀ c ∈ form.model.constraints, ∃ d ∈ program.model.constraints, ∀ y,
    d.Holds program.model.vars.length y → c.slack form.model.vars.length y = 0 ∨
      ∃ n, form.model.vars.length ≤ n ∧ n < program.model.vars.length ∧
        c.slack form.model.vars.length y = y n
  /-- The objective is the negated total of the artificial variables. -/
  objective : ∃ total : Expression ℚ, program.model.objective = some ⟨total, .maximize⟩ ∧
    ∀ j < program.model.vars.length, total.coefficientAt j =
      if j < form.model.vars.length then 0 else -1

section Attached

variable {M N : Model ℚ} {chosen : List Bool} {columns : List (Option ℕ)}

/-- The coefficients of the negated total are minus one from the new variables on. -/
theorem Model.Attached.coefficientAt_negatedTotal (h : M.Attached 1 chosen N columns) :
    ∀ j < N.vars.length,
      (Expression.negatedTotal (N.vars.drop M.vars.length) : Expression ℚ).coefficientAt j =
        if j < M.vars.length then 0 else -1 := by
  intro j hj
  split
  · rename_i hold
    exact h.coefficientAt_negatedTotal_of_lt hold
  · rename_i hnew
    apply Expression.coefficientAt_of_forall_eq _ ((h.exists_mem_negatedTotal_iff j).2
      ⟨by omega, hj⟩)
    intro t ht
    rw [h.terms_negatedTotal] at ht
    obtain ⟨v, -, rfl⟩ := List.mem_map.1 ht
    exact mul_one (-1)

/-- Where the constraints with artificial variables hold, an equality of the model is missed by the
value of its artificial variable, or not at all if it has none. -/
theorem Model.Attached.slack_eq (h : M.Attached 1 chosen N columns) (hM : M.IsStandard) :
    ∀ c ∈ M.constraints, ∃ d ∈ N.constraints, ∀ y, d.Holds N.vars.length y →
      c.slack M.vars.length y = 0 ∨
        ∃ n, M.vars.length ≤ n ∧ n < N.vars.length ∧ c.slack M.vars.length y = y n := by
  intro c hmem
  obtain ⟨k, hc⟩ := List.getElem?_of_mem hmem
  have hk : k < N.constraints.length := by
    rw [h.length_constraints]
    exact (List.getElem?_eq_some_iff.1 hc).1
  have hd := List.getElem?_eq_getElem hk
  refine ⟨_, List.mem_of_getElem? hd, fun y hy => ?_⟩
  have hwithin := hM.constraints c hmem
  obtain ⟨c', hc', hcases⟩ := h.constraint_cases hd
  rw [hc] at hc'
  cases hc'
  rcases hcases with ⟨-, -, hsame⟩ | ⟨-, n, name, hn, habsorbed⟩
  · rw [hsame, Constraint.holds_of_within hwithin h.width_le, ← c.holdsWithin_zero_iff,
      Constraint.holdsWithin_of_equal (hM.relation_eq c hmem), abs_nonpos_iff] at hy
    exact Or.inl hy
  · obtain ⟨hle, hlt⟩ := h.column_bounds hn
    rw [habsorbed, Constraint.holds_absorb_iff hwithin hle hlt, one_mul] at hy
    exact Or.inr ⟨n, hle, hlt, hy⟩

/-- Artificial variables keep a model in the form that a tableau needs. -/
theorem Model.Attached.isStandard (h : M.Attached 1 chosen N columns) (hM : M.IsStandard) :
    N.IsStandard := by
  have hkeep : ∀ (c : Constraint ℚ) (v : Variable),
      c.relation = .equal ∧ c.expression.constant = 0 ∧ 0 ≤ c.bound →
        (c.absorb 1 v).relation = .equal ∧ (c.absorb 1 v).expression.constant = 0 ∧
          0 ≤ (c.absorb 1 v).bound := by
    intro c v hc
    exact ⟨rfl, (Expression.constant_push _ 1 v).trans hc.2.1, hc.2.2⟩
  have hall := h.forall_constraints hkeep fun c hc =>
    ⟨hM.relation_eq c hc, hM.constant_eq c hc, hM.bound_nonneg c hc⟩
  exact ⟨h.model_scoped hM.toScoped, fun c hc => (hall c hc).1, fun c hc => (hall c hc).2.1,
    fun c hc => (hall c hc).2.2⟩

end Attached

/-- An expression is not refused when each of its variables stands at its index. -/
theorem Model.requireExpression_eq_ok {M : Model ℚ} {e : Expression ℚ}
    (h : ∀ t ∈ e.terms, M.vars[t.var.index]? = some t.var) : M.requireExpression e = .ok () := by
  have hnone : e.terms.findSome? M.termError? = none := by
    rw [List.findSome?_eq_none_iff]
    intro t ht
    unfold termError?
    rw [if_neg (by simp [h t ht])]
    rfl
  unfold requireExpression expressionError?
  simp [hnone]

/-- There is a program of phase one for every standard form. -/
theorem exists_phaseOneProgram {form : StandardForm ℚ} (hform : form.model.IsStandard)
    (hlength : form.slacks.length = form.model.constraints.length) :
    ∃ program, form.phaseOneProgram = .ok program ∧ ProgramOf form program := by
  obtain ⟨N, columns, hattached, hprogram⟩ := form.exists_attached_phaseOneProgram hlength
  let total : Expression ℚ := Expression.negatedTotal (N.vars.drop form.model.vars.length)
  have hmaximize : N.maximize total = .ok { N with objective := some ⟨total, .maximize⟩ } :=
    (Model.optimize_eq_ok_iff N _ .maximize total).2
      ⟨Model.requireExpression_eq_ok hattached.getElem?_vars_negatedTotal, rfl⟩
  have hshape := hattached.programShape hform.toScoped
  have hstandard := hattached.isStandard hform
  refine ⟨⟨{ N with objective := some ⟨total, .maximize⟩ }, artificialsOf columns⟩, ?_, hshape,
    ⟨hshape.isScoped, hstandard.relation_eq, hstandard.constant_eq, hstandard.bound_nonneg⟩,
    fun k d hd => hattached.exists_constraint hform.toScoped hd, hattached.slack_eq hform,
    ⟨total, rfl, hattached.coefficientAt_negatedTotal⟩⟩
  rw [hprogram]
  show (do
    let model ← N.maximize total
    return PhaseOneProgram.mk model (artificialsOf columns)) = _
  rw [hmaximize]
  rfl

/-- A program of phase one that is computed is the one that there is. -/
theorem programOf_of_eq_ok {form : StandardForm ℚ} (hform : form.model.IsStandard)
    (hlength : form.slacks.length = form.model.constraints.length) {program : PhaseOneProgram ℚ}
    (h : form.phaseOneProgram = .ok program) : ProgramOf form program := by
  obtain ⟨program', hprogram, hof⟩ := exists_phaseOneProgram hform hlength
  rw [h] at hprogram
  cases hprogram
  exact hof

/-! ## The first tableau of phase one -/

/-- `T` is the first tableau of phase one, with the artificial columns priced out. -/
structure StartOf (form : StandardForm ℚ) (program : PhaseOneProgram ℚ) (T : Tableau ℚ) :
    Prop where
  /-- The columns are the variables of the program. -/
  model : T.model = program.model
  /-- There is a row for the objective and one for each constraint. -/
  height : T.matrix.height = program.model.constraints.length + 1
  /-- The tableau is canonical. -/
  canonical : T.Canonical
  /-- The equations are the constraints of the program. -/
  feasible_iff : ∀ y, program.model.Feasible y ↔ (∀ j < T.columns, 0 ≤ y j) ∧ T.Solves y
  /-- The objective is the negated total of the artificial variables. -/
  objectiveAt_eq : ∀ y, T.Solves y →
    T.objectiveAt y = -∑ j ∈ Finset.Ico form.model.vars.length program.model.vars.length, y j

/-- A sum over a range in which the terms before some index are zero. -/
theorem sum_range_ite_neg {n k : ℕ} (h : n ≤ k) (y : ℕ → ℚ) :
    ∑ j ∈ Finset.range k, (if j < n then (0 : ℚ) else -1) * y j = -∑ j ∈ Finset.Ico n k, y j := by
  have hfront : ∑ j ∈ Finset.range n, (if j < n then (0 : ℚ) else -1) * y j = 0 := by
    refine Finset.sum_eq_zero fun j hj => ?_
    rw [if_pos (Finset.mem_range.1 hj), zero_mul]
  have hback : ∑ j ∈ Finset.Ico n k, (if j < n then (0 : ℚ) else -1) * y j =
      -∑ j ∈ Finset.Ico n k, y j := by
    rw [← Finset.sum_neg_distrib]
    refine Finset.sum_congr rfl fun j hj => ?_
    have hnj : ¬j < n := by
      have := Finset.mem_Ico.1 hj
      omega
    rw [if_neg hnj, neg_one_mul]
  rw [← Finset.sum_range_add_sum_Ico _ h, hfront, hback, zero_add]

section Start

variable {form : StandardForm ℚ} {program : PhaseOneProgram ℚ} {total : Expression ℚ}
  {first T : Tableau ℚ}

/-- Phase one has a first tableau unless there are more variables than can be addressed: the one
that the program is written into, with the artificial columns priced out. -/
theorem ProgramOf.exists_pricedTableau (h : ProgramOf form program)
    (ho : program.model.objective = some ⟨total, .maximize⟩)
    (hmax : program.model.vars.length ≤ Expression.maxDenseLength) (tolerance : ℚ) :
    ∃ first T : Tableau ℚ, program.tableau tolerance = .ok T ∧
      first.FirstOf program.model ⟨total, .maximize⟩ tolerance ∧
      first.Priced program.places T := by
  obtain ⟨first, hfirst, hof⟩ := Model.exists_tableau_eq_ok h.isScoped ho hmax tolerance
  -- At the place of an artificial variable stands its one.
  have hplaces : ∀ p ∈ program.places, p.1 ≠ 0 ∧ p.1 < first.matrix.height ∧ p.2 ≤ first.columns ∧
      first.entry p.1 p.2 = 1 := by
    intro p hp
    obtain ⟨hrow, hlt, hcolumn, hone⟩ := h.place_bounds hof hp
    exact ⟨hrow, hlt, hcolumn.le, hone⟩
  obtain ⟨T, hT, hpriced⟩ := Tableau.exists_foldlM_priceOut hplaces
  refine ⟨first, T, ?_, hof, hpriced⟩
  rw [program.tableau_eq_bind, hfirst]
  exact hT

/-- The objective of the program does not mention the variables of the standard form. -/
theorem ProgramOf.coefficientAt_of_lt (h : ProgramOf form program)
    (htotal : ∀ j < program.model.vars.length,
      total.coefficientAt j = if j < form.model.vars.length then 0 else -1) :
    ∀ j < form.model.vars.length, total.coefficientAt j = 0 :=
  fun j hj => (htotal j (lt_of_lt_of_le hj h.width_le)).trans (if_pos hj)

/-- With the artificial columns priced out, the tableau of the program is the first one of phase
one. -/
theorem ProgramOf.startOf (h : ProgramOf form program)
    (hlength : form.slacks.length = form.model.constraints.length)
    (hslack : ∀ k n : ℕ, form.slacks[k]? = some (some n) → form.model.UnitColumn k n)
    (hfirst : first.FirstOf program.model ⟨total, .maximize⟩ 0)
    (htotal : ∀ j < program.model.vars.length,
      total.coefficientAt j = if j < form.model.vars.length then 0 else -1)
    (hpriced : first.Priced program.places T) : StartOf form program T := by
  refine ⟨hpriced.model.trans hfirst.model, hpriced.equivalent.height.trans hfirst.height, ?_,
    fun y => ?_, fun y hy => ?_⟩
  · apply hpriced.canonical hfirst.tolerance (hfirst.rhs_nonneg h.standard)
    intro i hi
    rcases lt_or_ge i first.matrix.height with hlt | hbelow
    · exact Or.inr (h.exists_becomesBasic hlength hslack hfirst (h.coefficientAt_of_lt htotal)
        ((first.mem_constraintRows i).2 ⟨hi, hlt⟩))
    · exact Or.inl (first.entry_eq_zero_of_height_le hbelow)
  · rw [hfirst.feasible_iff h.standard, hpriced.columns, hpriced.equivalent.solves_iff]
  · rw [hpriced.equivalent.objectiveAt_eq ((hpriced.equivalent.solves_iff y).1 hy),
      hfirst.objectiveAt_eq, ← sum_range_ite_neg h.width_le]
    refine Finset.sum_congr rfl fun j hj => ?_
    rw [htotal j (Finset.mem_range.1 hj)]

end Start

/-- Phase one has a first tableau unless there are more variables than can be addressed. -/
theorem exists_phaseOneTableau {form : StandardForm ℚ} {program : PhaseOneProgram ℚ}
    (h : ProgramOf form program)
    (hlength : form.slacks.length = form.model.constraints.length)
    (hslack : ∀ k n : ℕ, form.slacks[k]? = some (some n) → form.model.UnitColumn k n)
    (hmax : program.model.vars.length ≤ Expression.maxDenseLength) :
    ∃ T, program.tableau 0 = .ok T ∧ StartOf form program T := by
  obtain ⟨total, ho, htotal⟩ := h.objective
  obtain ⟨first, T, hT, hfirst, hpriced⟩ := h.exists_pricedTableau ho hmax 0
  exact ⟨T, hT, h.startOf hlength hslack hfirst htotal hpriced⟩

/-- With more variables than can be addressed there is no tableau. -/
theorem phaseOneTableau_of_oversized {form : StandardForm ℚ} {program : PhaseOneProgram ℚ}
    (h : ProgramOf form program)
    (hmax : Expression.maxDenseLength < program.model.vars.length) (tolerance : ℚ) :
    program.tableau tolerance = .error (.oversizedVector program.model.vars.length) := by
  obtain ⟨total, ho, -⟩ := h.objective
  unfold PhaseOneProgram.tableau
  rw [Model.tableau_of_oversized ho hmax tolerance]
  rfl

/-- Where there is a first tableau of phase one, the variables of the program can be addressed. -/
theorem ProgramOf.le_maxDenseLength {form : StandardForm ℚ} {program : PhaseOneProgram ℚ}
    (h : ProgramOf form program) {tolerance : ℚ} {T : Tableau ℚ}
    (hT : program.tableau tolerance = .ok T) :
    program.model.vars.length ≤ Expression.maxDenseLength := by
  by_contra hmax
  rw [phaseOneTableau_of_oversized h (not_le.1 hmax)] at hT
  exact absurd hT nofun

/-- A first tableau of phase one is the one that the program is written into, with the artificial
columns priced out. -/
theorem ProgramOf.exists_priced_of_eq_ok {form : StandardForm ℚ} {program : PhaseOneProgram ℚ}
    (h : ProgramOf form program) {tolerance : ℚ} {T : Tableau ℚ}
    (hT : program.tableau tolerance = .ok T) :
    ∃ (total : Expression ℚ) (first : Tableau ℚ),
      (∀ j < program.model.vars.length,
        total.coefficientAt j = if j < form.model.vars.length then 0 else -1) ∧
      first.FirstOf program.model ⟨total, .maximize⟩ tolerance ∧
      first.Priced program.places T := by
  obtain ⟨total, ho, htotal⟩ := h.objective
  obtain ⟨first, U, hU, hfirst, hpriced⟩ :=
    h.exists_pricedTableau ho (h.le_maxDenseLength hT) tolerance
  rw [hT] at hU
  cases hU
  exact ⟨total, first, htotal, hfirst, hpriced⟩

/-- Where the program holds and no artificial variable is beyond a gap, no constraint of the
standard form is missed by more. -/
theorem ProgramOf.abs_slack_le {form : StandardForm ℚ} {program : PhaseOneProgram ℚ}
    (h : ProgramOf form program) {y : ℕ → ℚ} {gap : ℚ} (hgap : 0 ≤ gap)
    (hy : ∀ j, form.model.vars.length ≤ j → |y j| ≤ gap)
    (hholds : ∀ d ∈ program.model.constraints, d.Holds program.model.vars.length y) :
    ∀ c ∈ form.model.constraints, |c.slack form.model.vars.length y| ≤ gap := by
  intro c hc
  obtain ⟨d, hd, hslack⟩ := h.slack_eq c hc
  rcases hslack y (hholds d hd) with hzero | ⟨n, hge, -, hvalue⟩
  · rw [hzero, abs_zero]
    exact hgap
  · rw [hvalue]
    exact hy n hge

/-- Where the artificial variables are zero, the constraints of the program are those of the
standard form. -/
theorem ProgramOf.holds_iff {form : StandardForm ℚ} {program : PhaseOneProgram ℚ}
    (h : ProgramOf form program) (hform : form.model.IsStandard) {y : ℕ → ℚ}
    (hy : ∀ j, form.model.vars.length ≤ j → j < program.model.vars.length → y j = 0) :
    (∀ d ∈ program.model.constraints, d.Holds program.model.vars.length y) ↔
      ∀ c ∈ form.model.constraints, c.Holds form.model.vars.length y := by
  -- The artificial variables, all zero, add nothing to a constraint.
  have hlinear : ∀ (c d : Constraint ℚ),
      (∀ j < form.model.vars.length,
        d.expression.coefficientAt j = c.expression.coefficientAt j) →
      d.expression.linear program.model.vars.length y =
        c.expression.linear form.model.vars.length y := by
    intro c d hcd
    have hback : ∀ j, form.model.vars.length ≤ j → j < program.model.vars.length →
        d.expression.coefficientAt j * y j = 0 := by
      intro j hge hlt
      rw [hy j hge hlt, mul_zero]
    unfold Expression.linear
    rw [sum_range_eq_sum_range h.width_le hback]
    refine Finset.sum_congr rfl fun j hj => ?_
    rw [hcd j (Finset.mem_range.1 hj)]
  have hholds : ∀ (c d : Constraint ℚ), c ∈ form.model.constraints →
      d ∈ program.model.constraints → d.bound = c.bound →
      (∀ j < form.model.vars.length,
        d.expression.coefficientAt j = c.expression.coefficientAt j) →
      (d.Holds program.model.vars.length y ↔ c.Holds form.model.vars.length y) := by
    intro c d hc hd hbound hcd
    unfold Constraint.Holds
    rw [hform.relation_eq c hc, h.standard.relation_eq d hd, hform.constant_eq c hc,
      h.standard.constant_eq d hd, hbound, hlinear c d hcd]
  constructor
  · intro hall c hmem
    obtain ⟨k, hc⟩ := List.getElem?_of_mem hmem
    have hk : k < program.model.constraints.length := by
      rw [h.length_constraints]
      exact (List.getElem?_eq_some_iff.1 hc).1
    have hd := List.getElem?_eq_getElem hk
    obtain ⟨c', hc', hbound, hcd⟩ := h.constraint k _ hd
    rw [hc] at hc'
    cases hc'
    exact (hholds c _ hmem (List.mem_of_getElem? hd) hbound hcd).1
      (hall _ (List.mem_of_getElem? hd))
  · intro hall d hmem
    obtain ⟨k, hd⟩ := List.getElem?_of_mem hmem
    obtain ⟨c, hc, hbound, hcd⟩ := h.constraint k d hd
    have hmem' := List.mem_of_getElem? hc
    exact (hholds c d hmem' hmem hbound hcd).2 (hall c hmem')

/-- A point of the standard form is one of the program in which the artificial variables are zero,
and the other way round. -/
theorem ProgramOf.feasible_iff {form : StandardForm ℚ} {program : PhaseOneProgram ℚ}
    (h : ProgramOf form program) (hform : form.model.IsStandard) {y : ℕ → ℚ}
    (hy : ∀ j, form.model.vars.length ≤ j → j < program.model.vars.length → y j = 0) :
    program.model.Feasible y ↔ form.model.Feasible y := by
  refine and_congr ⟨fun hpos j hj => ?_, fun hpos j hj => ?_⟩ (h.holds_iff hform hy)
  · exact hpos j (lt_of_lt_of_le hj h.width_le)
  · rcases lt_or_ge j form.model.vars.length with hold | hnew
    · exact hpos j hold
    · exact (hy j hnew hj).ge

end LinProg
