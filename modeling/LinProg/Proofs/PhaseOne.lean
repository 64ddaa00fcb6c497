import LinProg.Proofs.Artificials
import LinProg.Proofs.Handover
import LinProg.Proofs.PhaseTwo

/-!
# Phase one

`PhaseOneOutcome` lists how phase one can end on the standard form of a model, and what each end
means; `outcome_phaseOne` says that it ends in one of these ways when there is no tolerance.

A feasible point of the model has all artificial variables zero, so the objective of phase one is
zero there. The basic point at the end is at least as good, and its artificial variables are not
negative, so they are zero (`StartOf.basicPoint_eq_zero`). When one of them is positive there is
therefore no feasible point. When all are zero, a row in which an artificial variable is still basic
has right-hand side zero, which is what `Tableau.Canonical.exists_expunge` asks for. `HandedOver`
says what becomes of the last tableau then, and the restored tableau is one for phase two to start
from (`startsFrom_of_restore`). -/

namespace LinProg

/-! ## The values of the artificial variables -/

namespace Tableau

variable {T : Tableau ℚ}

/-- The values read are those of the basic point. -/
theorem artificialValues_eq_ok (htol : T.tolerance = 0) {artificials : List Artificial}
    (h : ∀ a ∈ artificials, a.column < T.columns) :
    T.artificialValues artificials = .ok (artificials.map fun a => T.basicPoint a.column) := by
  apply mapM_eq_ok_map
  intro a ha
  have hlt : a.column < T.assignment.length := by
    rw [length_assignment]
    exact h a ha
  have hget : T.assignment[a.column]? = some (T.basicPoint a.column) := by
    rw [← entry_assignment htol, Row.entry_of_lt hlt]
    exact List.getElem?_eq_getElem hlt
  simp only [hget]

/-- The first artificial column is where the block of artificial columns begins. -/
theorem firstArtificial_eq {artificials : List Artificial} {n : ℕ} (hle : n ≤ T.columns)
    (h : artificials.map (·.column) = List.range' n (T.columns - n)) :
    T.firstArtificial artificials = n := by
  unfold firstArtificial
  rw [h]
  cases hsize : T.columns - n with
  | zero =>
    show T.columns = n
    omega
  | succ size =>
    have hmin : (List.range' n (size + 1)).min? = some n := by
      rw [List.min?_eq_some_iff]
      constructor
      · rw [List.mem_range'_1]
        omega
      · intro j hj
        exact (List.mem_range'_1.1 hj).1
    rw [hmin]
    rfl

/-- A row in which an artificial variable is basic shows its value. -/
theorem rhs_eq_zero_of_basicColumn {artificials : List Artificial} {n : ℕ}
    (h : artificials.map (·.column) = List.range' n (T.columns - n))
    (hzero : ∀ a ∈ artificials, T.basicPoint a.column = 0) {row c : ℕ}
    (hc : T.basicColumn row = some c) (hle : n ≤ c) : T.rhs row = 0 := by
  have hlt := lt_columns_of_basicColumn hc
  have hmem : c ∈ artificials.map (·.column) := by
    rw [h, List.mem_range'_1]
    omega
  obtain ⟨a, ha, rfl⟩ := List.mem_map.1 hmem
  calc T.rhs row = T.basicPoint a.column := (basicPoint_of_basicColumn hc).symm
    _ = 0 := hzero a ha

end Tableau

/-! ## Points with zeros for the artificial variables -/

/-- A point with zeros for the artificial variables. -/
def padded (width : ℕ) (x : ℕ → ℚ) : ℕ → ℚ :=
  fun j => if j < width then x j else 0

/-- Before the artificial variables the point stays as it is. -/
theorem padded_of_lt (x : ℕ → ℚ) {width j : ℕ} (h : j < width) : padded width x j = x j :=
  if_pos h

/-- The artificial variables are zero. -/
theorem padded_of_le (x : ℕ → ℚ) {width j : ℕ} (h : width ≤ j) : padded width x j = 0 :=
  if_neg (not_lt.2 h)

/-- Zeros for the artificial variables do not make a value negative. -/
theorem padded_nonneg_iff (x : ℕ → ℚ) {width columns : ℕ} (hle : width ≤ columns) :
    (∀ j < columns, 0 ≤ padded width x j) ↔ ∀ j < width, 0 ≤ x j := by
  constructor
  · intro hpos j hj
    rw [← padded_of_lt x hj]
    exact hpos j (by omega)
  · intro hpos j _
    rcases lt_or_ge j width with hj | hj
    · rw [padded_of_lt x hj]
      exact hpos j hj
    · rw [padded_of_le x hj]

section Start

variable {form : StandardForm ℚ} {program : PhaseOneProgram ℚ} {T : Tableau ℚ}
  {settings : Settings ℚ}

/-- The columns of the first tableau are the variables of the program. -/
theorem StartOf.columns (h : StartOf form program T) : T.columns = program.model.vars.length :=
  Tableau.columns_eq_of_model_eq h.model

/-- The objective of phase one is not positive at a solution without negative values. -/
theorem StartOf.objectiveAt_nonpos (h : StartOf form program T) {y : ℕ → ℚ}
    (hpos : ∀ j, 0 ≤ y j) (hy : T.Solves y) : T.objectiveAt y ≤ 0 := by
  rw [h.objectiveAt_eq y hy]
  exact neg_nonpos.2 (Finset.sum_nonneg fun j _ => hpos j)

/-- A point of the standard form, with zeros for the artificial variables, is one of the first
tableau. -/
theorem StartOf.feasible_padded_iff (h : StartOf form program T) (hprogram : ProgramOf form program)
    (hform : form.model.IsStandard) (x : ℕ → ℚ) :
    form.model.Feasible x ↔ (∀ j < T.columns, 0 ≤ padded form.model.vars.length x j) ∧
      T.Solves (padded form.model.vars.length x) := by
  have hzero : ∀ j, form.model.vars.length ≤ j → j < program.model.vars.length →
      padded form.model.vars.length x j = 0 := fun j hj _ => padded_of_le x hj
  have hsame : ∀ j < form.model.vars.length, x j = padded form.model.vars.length x j :=
    fun j hj => (padded_of_lt x hj).symm
  rw [form.model.feasible_congr hsame, ← hprogram.feasible_iff hform hzero, h.feasible_iff]

/-- When the standard form has a feasible point, the artificial variables are zero at the end of
phase one. -/
theorem StartOf.basicPoint_eq_zero (h : StartOf form program T) (hprogram : ProgramOf form program)
    (hform : form.model.IsStandard) (hending : (Phase.run settings T).ending = .optimal)
    {x : ℕ → ℚ} (hx : form.model.Feasible x) :
    ∀ j ∈ Finset.Ico form.model.vars.length program.model.vars.length,
      (Phase.run settings T).last.basicPoint j = 0 := by
  obtain ⟨hlast, hequivalent⟩ := Phase.last_run_spec settings h.canonical
  have hbasic := (hequivalent.solves_iff _).1 hlast.solves_basicPoint
  obtain ⟨hpos, hsolves⟩ := (h.feasible_padded_iff hprogram hform x).1 hx
  -- At the padded point the total is zero, and the last basic point has no larger one.
  have hpad : ∑ j ∈ Finset.Ico form.model.vars.length program.model.vars.length,
      padded form.model.vars.length x j = 0 := by
    refine Finset.sum_eq_zero fun j hj => ?_
    exact padded_of_le x (Finset.mem_Ico.1 hj).1
  have hle := Phase.objectiveAt_le_of_optimal h.canonical hending hpos hsolves
  rw [h.objectiveAt_eq _ hsolves, h.objectiveAt_eq _ hbasic, hpad, neg_zero] at hle
  have hnonneg : ∀ j ∈ Finset.Ico form.model.vars.length program.model.vars.length,
      0 ≤ (Phase.run settings T).last.basicPoint j := fun j _ => hlast.basicPoint_nonneg j
  -- Values that are not negative and have a total of zero are all zero.
  have hsum : ∑ j ∈ Finset.Ico form.model.vars.length program.model.vars.length,
      (Phase.run settings T).last.basicPoint j = 0 :=
    le_antisymm (by linarith) (Finset.sum_nonneg hnonneg)
  exact (Finset.sum_eq_zero_iff_of_nonneg hnonneg).1 hsum

end Start

/-! ## The handover to phase two -/

/-- `R` is the first tableau of phase two that comes of the last one of phase one by way of `U`, in
which the artificial columns are driven out. -/
structure HandedOver (A : Model ℚ) (o : Objective ℚ) (last U R : Tableau ℚ) : Prop where
  /-- The artificial variables come after the variables of the standard form. -/
  width_le : A.vars.length ≤ last.columns
  /-- Driving out keeps the solutions in which the artificial variables are zero. -/
  kept : last.Kept A.vars.length U
  /-- The artificial columns are dropped, the objective is put in, and the basic columns are priced
  out of it. -/
  restored : ∃ S, U.RestoredFrom A o S ∧
    U.basicPlaces.foldlM (fun R p => R.priceOut p.1 p.2) S = .ok R
  /-- In the tableau between, the basis can be read off. -/
  readsBasis : U.ReadsBasis
  /-- No artificial column is basic there any more. -/
  lt_width : ∀ i c, U.basicColumn i = some c → c < A.vars.length

section HandedOver

variable {A : Model ℚ} {o : Objective ℚ} {last U R : Tableau ℚ}

/-- Pricing out is all that happens once the objective is put in. -/
theorem HandedOver.exists_repriced (h : HandedOver A o last U R) :
    ∃ S, U.RestoredFrom A o S ∧ S.Repriced U.basicPlaces R := by
  obtain ⟨S, hrestored, hpriced⟩ := h.restored
  exact ⟨S, hrestored, Tableau.repriced_of_eq_ok
    (fun p hp => Tableau.row_ne_zero_of_mem_basicPlaces hp) hpriced⟩

/-- The tolerance is kept. -/
theorem HandedOver.tolerance (h : HandedOver A o last U R) : R.tolerance = last.tolerance := by
  obtain ⟨S, hrestored, hrepriced⟩ := h.exists_repriced
  rw [hrepriced.tolerance, hrestored.tolerance, h.kept.tolerance]

/-- The right-hand sides are those after driving out. -/
theorem HandedOver.rhs (h : HandedOver A o last U R) {i : ℕ} (hi : i ≠ 0) :
    R.rhs i = U.rhs i := by
  obtain ⟨S, hrestored, hrepriced⟩ := h.exists_repriced
  rw [hrepriced.rhs hi, hrestored.rhs_of_ne i hi]

/-- The columns of phase two are those of the standard form. -/
theorem HandedOver.columns (h : HandedOver A o last U R) : R.columns = A.vars.length := by
  obtain ⟨S, hrestored, hrepriced⟩ := h.exists_repriced
  rw [hrepriced.columns, hrestored.columns]

/-- The number of rows is kept. -/
theorem HandedOver.height (h : HandedOver A o last U R) :
    R.matrix.height = last.matrix.height := by
  obtain ⟨S, hrestored, hrepriced⟩ := h.exists_repriced
  rw [hrepriced.height, hrestored.height, h.kept.height]

/-- The solutions are those of phase one with zeros for the artificial variables. -/
theorem HandedOver.solves_iff (h : HandedOver A o last U R) (y : ℕ → ℚ) :
    R.Solves y ↔ last.Solves (padded A.vars.length y) := by
  obtain ⟨S, hrestored, hrepriced⟩ := h.exists_repriced
  have hle : A.vars.length ≤ U.columns := by
    rw [h.kept.columns]
    exact h.width_le
  have hsame : ∀ j < R.columns, y j = padded A.vars.length y j := by
    intro j hj
    rw [h.columns] at hj
    exact (padded_of_lt y hj).symm
  calc R.Solves y ↔ R.Solves (padded A.vars.length y) := R.solves_congr hsame
    _ ↔ U.Solves (padded A.vars.length y) :=
        hrestored.solves_repriced_iff hle hrepriced fun j hj _ => padded_of_le y hj
    _ ↔ last.Solves (padded A.vars.length y) :=
        h.kept.solves_iff _ fun j hj _ => padded_of_le y hj

/-- The handover succeeds when the artificial columns are driven out. -/
theorem exists_handedOver (hA : A.Scoped) (ho : A.objective = some o)
    (hmax : A.vars.length ≤ Expression.maxDenseLength) (hle : A.vars.length ≤ last.columns)
    {artificials : List Artificial}
    (hartificials : artificials.map (·.column) =
      List.range' A.vars.length (last.columns - A.vars.length))
    (hheight : 0 < last.matrix.height) (hkept : last.Kept A.vars.length U) (hreads : U.ReadsBasis)
    (hbefore : ∀ i c, U.basicColumn i = some c → c < A.vars.length) :
    ∃ R, U.restore last.tolerance A artificials = .ok R ∧ HandedOver A o last U R := by
  obtain ⟨S, R, hR, hrestored, hpriced, -⟩ := Tableau.exists_restore hA ho hmax
    (by rw [hkept.columns]; exact hle) (by rw [hkept.height]; exact hheight)
    (fun i _ c hc => hbefore i c hc) (by rw [hkept.columns]; exact hartificials)
  rw [hkept.tolerance] at hR
  exact ⟨R, hR, hle, hkept, ⟨S, hrestored, hpriced⟩, hreads, hbefore⟩

/-- With the basis read off, pricing out keeps the equations and the objective. -/
theorem HandedOver.exists_priced (h : HandedOver A o last U R) :
    ∃ S, U.RestoredFrom A o S ∧ S.Priced U.basicPlaces R := by
  obtain ⟨S, hrestored, hpriced⟩ := h.restored
  exact ⟨S, hrestored, hrestored.priced h.readsBasis h.lt_width hpriced⟩

/-- Without tolerance the first tableau of phase two is canonical when driving out keeps the
right-hand sides of a canonical one. -/
theorem HandedOver.canonical (h : HandedOver A o last U R) (hlast : last.Canonical)
    (hrhs : ∀ i, U.rhs i = last.rhs i) : R.Canonical := by
  obtain ⟨S, hrestored, hpriced⟩ := h.exists_priced
  refine ⟨h.tolerance.trans hlast.tolerance_eq,
    hrestored.zeroOrBasic h.readsBasis h.lt_width hpriced, fun i hi => ?_⟩
  rw [h.rhs hi, hrhs]
  exact hlast.rhs_nonneg i hi

/-- The objective of phase two is that of the standard form. -/
theorem HandedOver.objectiveAt_eq (h : HandedOver A o last U R) {y : ℕ → ℚ} (hy : R.Solves y) :
    R.objectiveAt y = o.expression.linear A.vars.length y := by
  obtain ⟨S, hrestored, hpriced⟩ := h.exists_priced
  exact hrestored.objectiveAt_eq hpriced hy

/-- In a tableau with the columns of the program the artificial columns are those from the width of
the standard form on. -/
theorem ProgramOf.artificials_of_columns {form : StandardForm ℚ} {program : PhaseOneProgram ℚ}
    (h : ProgramOf form program) (hcolumns : last.columns = program.model.vars.length) :
    form.model.vars.length ≤ last.columns ∧
      program.artificials.map (·.column) = List.range' form.model.vars.length
        (last.columns - form.model.vars.length) ∧
      last.firstArtificial program.artificials = form.model.vars.length := by
  have hle : form.model.vars.length ≤ last.columns := by
    rw [hcolumns]
    exact h.width_le
  have hartificials : program.artificials.map (·.column) = List.range' form.model.vars.length
      (last.columns - form.model.vars.length) := by
    rw [hcolumns]
    exact h.map_column
  exact ⟨hle, hartificials, Tableau.firstArtificial_eq hle hartificials⟩

/-- In the last tableau of phase one the artificial columns are those from the width of the standard
form on. -/
theorem StartOf.artificials_last {form : StandardForm ℚ} {program : PhaseOneProgram ℚ}
    {T : Tableau ℚ} (h : StartOf form program T) (settings : Settings ℚ)
    (hprogram : ProgramOf form program) :
    form.model.vars.length ≤ (Phase.run settings T).last.columns ∧
      program.artificials.map (·.column) = List.range' form.model.vars.length
        ((Phase.run settings T).last.columns - form.model.vars.length) ∧
      (Phase.run settings T).last.firstArtificial program.artificials =
        form.model.vars.length :=
  hprogram.artificials_of_columns
    ((Phase.last_run_spec settings h.canonical).2.columns.trans h.columns)

/-- With all artificial variables zero, a row in which one of them is basic has right-hand side
zero. -/
theorem StartOf.rhs_eq_zero_of_basicColumn {form : StandardForm ℚ} {program : PhaseOneProgram ℚ}
    {T : Tableau ℚ} (h : StartOf form program T) {settings : Settings ℚ}
    (hprogram : ProgramOf form program)
    (hzero : ∀ a ∈ program.artificials, (Phase.run settings T).last.basicPoint a.column = 0)
    (row c : ℕ) (hc : (Phase.run settings T).last.basicColumn row = some c)
    (hle : (Phase.run settings T).last.firstArtificial program.artificials ≤ c) :
    (Phase.run settings T).last.rhs row = 0 := by
  obtain ⟨-, hartificials, hfirst⟩ := h.artificials_last settings hprogram
  rw [hfirst] at hle
  exact Tableau.rhs_eq_zero_of_basicColumn hartificials hzero hc hle

/-- When phase one ends with all artificial variables zero, the handover succeeds, and without
tolerance it hands over a canonical tableau. -/
theorem StartOf.exists_handedOver {form : StandardForm ℚ} {program : PhaseOneProgram ℚ}
    {T : Tableau ℚ} (h : StartOf form program T) (settings : Settings ℚ)
    (hprogram : ProgramOf form program) (hform : form.model.Scoped)
    (ho : form.model.objective = some o)
    (hmax : program.model.vars.length ≤ Expression.maxDenseLength)
    (hzero : ∀ a ∈ program.artificials, (Phase.run settings T).last.basicPoint a.column = 0) :
    ∃ U R, ((Phase.run settings T).last.expunge 0 program.artificials).result = .ok U ∧
      U.restore 0 form.model program.artificials = .ok R ∧
      HandedOver form.model o (Phase.run settings T).last U R ∧ R.Canonical := by
  obtain ⟨hlast, hequivalent⟩ := Phase.last_run_spec settings h.canonical
  obtain ⟨hle, hartificials, hfirst⟩ := h.artificials_last settings hprogram
  have hrhs := h.rhs_eq_zero_of_basicColumn hprogram hzero
  generalize (Phase.run settings T).last = last at *
  obtain ⟨U, hU, hkept, hkeep, hreads, hbefore⟩ :=
    hlast.exists_expunge (by rw [hfirst]; exact hle) hrhs
  rw [hfirst] at hkept hbefore
  have hheight : 0 < last.matrix.height := by
    rw [hequivalent.height, h.height]
    exact Nat.succ_pos _
  obtain ⟨R, hR, hhanded⟩ := LinProg.exists_handedOver hform ho
    (hprogram.width_le.trans hmax) hle hartificials hheight hkept hreads hbefore
  rw [hlast.tolerance_eq] at hR
  exact ⟨U, R, hU, hR, hhanded, hhanded.canonical hlast hkeep⟩

end HandedOver

/-! ## The ends of phase one -/

/-- The ways in which phase one can end on the standard form of a model, and what each means. -/
inductive PhaseOneOutcome (M : Model ℚ) (o : Objective ℚ) (settings : Settings ℚ) :
    Except (Failure ℚ) (PhaseOneResult ℚ) → Prop
  /-- The variables and the columns that are added cannot be addressed. -/
  | oversized {length : ℕ} (hmax : Expression.maxDenseLength < length)
      (hlength : length ≤ M.vars.length + 3 * M.constraints.length) :
      PhaseOneOutcome M o settings (.error (.fault (.oversizedVector length)))
  /-- The phase runs out of pivots. -/
  | exhausted {T : Tableau ℚ} (hT : T.Canonical)
      (hcolumns : T.columns ≤ M.vars.length + 3 * M.constraints.length)
      (hheight : T.matrix.height = M.constraints.length + 1)
      (hending : (Phase.run settings T).ending = .exhausted) :
      PhaseOneOutcome M o settings
        (.error (.error (.iterationLimit 1 (Phase.run settings T).iterations)))
  /-- There is no feasible point. -/
  | infeasible {initial last : Tableau ℚ} {iterations : ℕ} (hnone : ∀ x, ¬M.Feasible x) :
      PhaseOneOutcome M o settings (.ok (.infeasible initial last iterations))
  /-- Phase two can start from the restored tableau. -/
  | feasible {initial restored : Tableau ℚ} {iterations : ℕ}
      (hmax : M.vars.length ≤ Expression.maxDenseLength) (hstarts : StartsFrom M o restored) :
      PhaseOneOutcome M o settings (.ok (.feasible initial restored iterations))

section Form

variable {M : Model ℚ} {o : Objective ℚ} {settings : Settings ℚ} {program : PhaseOneProgram ℚ}
  {T : Tableau ℚ}

/-- When phase one ends with all artificial variables zero, expunging and restoring give a tableau
for phase two to start from. -/
theorem startsFrom_of_restore (hM : M.Scoped) (ho : M.objective = some o)
    (hprogram : ProgramOf (StandardForm.ofModel M) program)
    (hstart : StartOf (StandardForm.ofModel M) program T)
    (hmax : program.model.vars.length ≤ Expression.maxDenseLength)
    (hzero : ∀ a ∈ program.artificials, (Phase.run settings T).last.basicPoint a.column = 0) :
    ∃ U R, ((Phase.run settings T).last.expunge 0 program.artificials).result = .ok U ∧
      U.restore 0 (StandardForm.ofModel M).model program.artificials = .ok R ∧
      StartsFrom M o R := by
  have hstandard := StandardForm.isStandard_ofModel hM
  have hobjective := StandardForm.objective_ofModel ho
  obtain ⟨U, R, hU, hR, hhanded, hcanonical⟩ :=
    hstart.exists_handedOver settings hprogram hstandard.toScoped hobjective hmax hzero
  have hequivalent := (Phase.last_run_spec settings hstart.canonical).2
  have hheight : R.matrix.height = (StandardForm.ofModel M).model.constraints.length + 1 := by
    rw [hhanded.height, hequivalent.height, hstart.height, hprogram.length_constraints]
  refine ⟨U, R, hU, hR, startsFrom_of_form hM ho hcanonical hhanded.columns hheight
    (fun y => ?_) fun y hy => hhanded.objectiveAt_eq hy⟩
  have hnonneg : (∀ j < T.columns, 0 ≤ padded (StandardForm.ofModel M).model.vars.length y j) ↔
      ∀ j < R.columns, 0 ≤ y j := by
    rw [hhanded.columns]
    exact padded_nonneg_iff y (by rw [hstart.columns]; exact hprogram.width_le)
  rw [hstart.feasible_padded_iff hprogram hstandard y, hhanded.solves_iff,
    hequivalent.solves_iff, hnonneg]

/-- With a positive artificial variable at the end of phase one, the model has no feasible point. -/
theorem not_feasible_of_basicPoint_pos (hM : M.Scoped)
    (hprogram : ProgramOf (StandardForm.ofModel M) program)
    (hstart : StartOf (StandardForm.ofModel M) program T)
    (hending : (Phase.run settings T).ending = .optimal) {a : Artificial}
    (ha : a ∈ program.artificials) (hpos : 0 < (Phase.run settings T).last.basicPoint a.column)
    (x : ℕ → ℚ) : ¬M.Feasible x := by
  intro hx
  have hstandard := StandardForm.isStandard_ofModel hM
  -- A feasible point of the model would be one of the standard form too.
  obtain ⟨y, hy, -⟩ := (StandardForm.ofModel_extends hM).extend x hx
  have hmem : a.column ∈ program.artificials.map (·.column) := List.mem_map.2 ⟨a, ha, rfl⟩
  have hcolumn : a.column ∈ Finset.Ico (StandardForm.ofModel M).model.vars.length
      program.model.vars.length := by
    rw [hprogram.map_column, List.mem_range'_1] at hmem
    have hle := hprogram.width_le
    rw [Finset.mem_Ico]
    omega
  have hzero := hstart.basicPoint_eq_zero hprogram hstandard hending hy a.column hcolumn
  rw [hzero] at hpos
  exact lt_irrefl 0 hpos

/-- Unless some artificial variable is positive, all of them are zero. -/
theorem basicPoint_eq_zero_of_forall_not_pos (hT : T.Canonical) {artificials : List Artificial}
    (hnone : ∀ a ∈ artificials, ¬0 < T.basicPoint a.column) :
    ∀ a ∈ artificials, T.basicPoint a.column = 0 :=
  fun a ha => le_antisymm (not_lt.1 (hnone a ha)) (hT.basicPoint_nonneg a.column)

/-- Phase one ends in one of these ways. -/
theorem outcome_phaseOne (hM : M.Scoped) (ho : M.objective = some o)
    (htol : settings.tolerance = 0) :
    PhaseOneOutcome M o settings ((StandardForm.ofModel M).phaseOne settings).result := by
  have hstandard := StandardForm.isStandard_ofModel hM
  have hslacks := StandardForm.length_slacks_ofModel M
  obtain ⟨program, hok, hprogram⟩ := exists_phaseOneProgram hstandard hslacks
  have hchecked := (Recorded.result_checked_eq_ok_iff (α := ℚ) _ _).2 hok
  have hwidth : program.model.vars.length ≤ M.vars.length + 3 * M.constraints.length := by
    have hform := StandardForm.width_ofModel_le M
    have hadded := hprogram.width_le_add
    rw [StandardForm.length_constraints_ofModel] at hadded
    omega
  have hown : M.vars.length ≤ program.model.vars.length :=
    (StandardForm.ofModel_extends hM).width_le.trans hprogram.width_le
  unfold StandardForm.phaseOne
  rw [Recorded.result_bind_of_ok _ hchecked,
    Recorded.result_bind_of_ok _ (Recorded.result_record _), htol]
  -- The program is found, and its tableau is refused only when it is too wide.
  rcases lt_or_ge Expression.maxDenseLength program.model.vars.length with hmax | hmax
  · rw [phaseOneTableau_of_oversized hprogram hmax, Recorded.result_bind_of_error _ rfl]
    exact .oversized hmax hwidth
  obtain ⟨T, hT, hstart⟩ := exists_phaseOneTableau hprogram hslacks
    (fun k n hk => (StandardForm.unitColumn_of_slack hM hk).1) hmax
  have hcolumns : T.columns ≤ M.vars.length + 3 * M.constraints.length := by
    rw [hstart.columns]
    exact hwidth
  have hheight : T.matrix.height = M.constraints.length + 1 := by
    rw [hstart.height, hprogram.length_constraints, StandardForm.length_constraints_ofModel]
  rw [hT, Recorded.result_bind_of_ok _ ((Recorded.result_guarded_eq_ok_iff _ _).2 rfl)]
  dsimp only
  rw [Recorded.result_bind_of_ok _ (Recorded.result_record _)]
  cases hending : (Phase.run settings T).ending with
  | failed failure =>
    exact absurd hending (Phase.pivots_ne_failed settings _ _ _ hstart.canonical _)
  | exhausted => exact .exhausted hstart.canonical hcolumns hheight hending
  | unbounded column =>
    -- The objective of phase one cannot exceed zero.
    obtain ⟨x, hsolves, hpos, hgt⟩ :=
      Phase.exists_objectiveAt_gt_of_unbounded hstart.canonical hending 0
    exact absurd (hstart.objectiveAt_nonpos hpos hsolves) (not_le.2 hgt)
  | optimal =>
    obtain ⟨hlast, hequivalent⟩ := Phase.last_run_spec settings hstart.canonical
    have hin : ∀ a ∈ program.artificials, a.column < (Phase.run settings T).last.columns := by
      intro a ha
      obtain ⟨k, -, -, hunit, -⟩ := hprogram.artificial a ha
      rw [hequivalent.columns, hstart.columns]
      exact hunit.lt_width
    have hlevels := Tableau.artificialValues_eq_ok hlast.tolerance_eq hin
    dsimp only
    rw [hlevels, Recorded.result_bind_of_ok _ ((Recorded.result_guarded_eq_ok_iff _ _).2 rfl)]
    split
    · -- Some artificial variable is positive.
      rename_i hany
      obtain ⟨level, hmem, hpositive⟩ := List.any_eq_true.1 hany
      obtain ⟨a, ha, rfl⟩ := List.mem_map.1 hmem
      exact .infeasible (not_feasible_of_basicPoint_pos hM hprogram hstart hending ha
        (of_decide_eq_true hpositive))
    · -- No artificial variable is positive, so all of them are zero.
      rename_i hnone
      have hzero := basicPoint_eq_zero_of_forall_not_pos hlast fun a ha hpos =>
        hnone (List.any_eq_true.2 ⟨_, List.mem_map.2 ⟨a, ha, rfl⟩, decide_eq_true hpos⟩)
      obtain ⟨U, R, hU, hR, hstarts⟩ :=
        startsFrom_of_restore hM ho hprogram hstart hmax hzero
      rw [Recorded.result_bind_of_ok _ hU, hR,
        Recorded.result_bind_of_ok _ ((Recorded.result_guarded_eq_ok_iff _ _).2 rfl)]
      exact .feasible (hown.trans hmax) hstarts

end Form

end LinProg
