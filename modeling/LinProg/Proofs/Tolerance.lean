import LinProg.Proofs.Artificials
import LinProg.Proofs.SameChoices

/-!
# Choices under a tolerance

When every number that a choice compares with zero is zero or larger in magnitude than a tolerance
(`Tableau.Apart`), the choice is the same under that tolerance as without any. Each function of a
tableau comes with the numbers that it compares, and with a lemma that says so: which column enters
(`Tableau.reducedCosts`), whether it is unbounded (`Tableau.columnEntries`) and which row leaves for
it (also `Tableau.tieNumbers`), which columns are basic (`Tableau.basisNumbers`) and what the values
are of those that are read (`Tableau.assignmentNumbers`), and whether a pivot is possible. A pivot
then gives the same matrix, so a phase goes through the same matrices as long as each of them is
apart for what is compared there (`Tableau.compared`, `Phase.run_withTolerance`). -/

namespace LinProg

/-- The same settings with another tolerance. -/
def Settings.withTolerance (settings : Settings ℚ) (tolerance : ℚ) : Settings ℚ :=
  { settings with tolerance }

/-! ## Numbers apart from zero -/

/-- The number is zero, or its magnitude exceeds the tolerance. -/
def ApartFromZero (tolerance x : ℚ) : Prop :=
  x = 0 ∨ tolerance < |x|

section ApartFromZero

variable {t x : ℚ} (h : ApartFromZero t x) (ht : 0 ≤ t)

include h ht

/-- A number apart from zero exceeds the tolerance when it is positive. -/
theorem ApartFromZero.lt_iff : t < x ↔ 0 < x := by
  refine ⟨fun hlt => lt_of_le_of_lt ht hlt, fun hpos => ?_⟩
  rcases h with hzero | hlt
  · exact absurd hzero hpos.ne'
  · rwa [abs_of_pos hpos] at hlt

/-- A number apart from zero is beyond the tolerance on the other side when it is negative. -/
theorem ApartFromZero.lt_neg_iff : x < -t ↔ x < 0 := by
  refine ⟨fun hlt => lt_of_lt_of_le hlt (neg_nonpos.2 ht), fun hneg => ?_⟩
  rcases h with hzero | hlt
  · exact absurd hzero hneg.ne
  · rw [abs_of_neg hneg] at hlt
    linarith

/-- A number apart from zero is significant when it is not zero. -/
theorem ApartFromZero.isSignificant_eq :
    Scalar.isSignificant t x = Scalar.isSignificant 0 x := by
  rw [Bool.eq_iff_iff, Scalar.isSignificant_zero_iff, Scalar.isSignificant_iff]
  refine ⟨fun hlt => abs_pos.1 (lt_of_le_of_lt ht hlt), fun hne => h.resolve_left hne⟩

/-- A number apart from zero is negligible when it is zero. -/
theorem ApartFromZero.isNegligible_eq : Scalar.isNegligible t x = Scalar.isNegligible 0 x := by
  rw [Bool.eq_iff_iff, Scalar.isNegligible_iff, Scalar.isNegligible_iff, abs_nonpos_iff]
  refine ⟨fun hle => h.resolve_right (not_lt.2 hle), fun hzero => ?_⟩
  rw [hzero, abs_zero]
  exact ht

end ApartFromZero

/-- What does not count without tolerance, being zero, does not count under one. -/
theorem isSignificant_eq_false_of_zero {t x : ℚ} (ht : 0 ≤ t)
    (h : Scalar.isSignificant (0 : ℚ) x = false) : Scalar.isSignificant t x = false := by
  have hzero : x = 0 := by
    rwa [← Bool.not_eq_true, Scalar.isSignificant_zero_iff, not_not] at h
  rw [ApartFromZero.isSignificant_eq (Or.inl hzero) ht, h]

namespace Tableau

variable {T U : Tableau ℚ} {t : ℚ}

/-- The same tableau with another tolerance. -/
def withTolerance (T : Tableau ℚ) (tolerance : ℚ) : Tableau ℚ :=
  { T with tolerance }

/-! ## The numbers compared -/

/-- The entries of a column in the constraint rows. -/
def columnEntries (T : Tableau ℚ) (column : ℕ) : List ℚ :=
  T.constraintRows.map (T.entry · column)

/-- The numbers that the scan for a unit compares on its way down a column: what the entries lack
to one until the unit is met, and all other entries, until one of them is not zero. -/
def scanNumbers : (found : Bool) → List ℚ → List ℚ
  | _, [] => []
  | false, x :: xs =>
    (x - 1) ::
      if x = 1 then scanNumbers true xs else x :: if x = 0 then scanNumbers false xs else []
  | true, x :: xs => x :: if x = 0 then scanNumbers true xs else []

/-- The numbers that are compared to read off the basis: the reduced costs, and those of the scans
down the columns whose reduced cost is zero. -/
def basisNumbers (T : Tableau ℚ) : List ℚ :=
  T.reducedCosts ++ ((List.range T.columns).filter fun j => T.entry 0 j = 0).flatMap fun j =>
    scanNumbers false (T.columnEntries j)

/-- The numbers that are compared for the values of some columns: those for the basis, and the
right-hand sides where these columns are basic. -/
def assignmentNumbers (T : Tableau ℚ) (read : ℕ → Bool) : List ℚ :=
  T.basisNumbers ++ (T.basicPlaces.filter fun p => read p.2).map fun p => T.rhs p.1

/-- The numbers that are compared to find the ties for the least ratio of a column. Only Bland's
rule takes other ratios than the least for ties, and it reads the basis to choose among them. -/
def tieNumbers (T : Tableau ℚ) (column : ℕ) : PivotRule → List ℚ
  | .dantzig => []
  | .bland =>
    match leastNumber ((T.ratios column).map (·.2)) with
    | none => []
    | some least => (T.ratios column).map (fun p => p.2 - least) ++ T.basisNumbers

/-- The numbers that a phase compares in a tableau, leaving out the values of columns that are not
read. It looks for an improving column. At the end there is none, and the values are read off.
Otherwise it looks whether the column is unbounded, for the row that leaves, and whether the pivot
is degenerate. -/
def compared (T : Tableau ℚ) (read : ℕ → Bool) (rule : PivotRule) : List ℚ :=
  T.reducedCosts ++
    match T.enteringColumn rule with
    | none => T.assignmentNumbers read
    | some column =>
      T.columnEntries column ++ T.tieNumbers column rule ++
        ((T.leavingRow column rule).map T.rhs).toList

section Compared

variable {read : ℕ → Bool} {rule : PivotRule} {column row : ℕ}

/-- Every phase compares the reduced costs. -/
theorem reducedCosts_subset_compared (T : Tableau ℚ) (read : ℕ → Bool) (rule : PivotRule) :
    T.reducedCosts ⊆ T.compared read rule :=
  List.subset_append_left _ _

/-- Where no column enters, values are read off. -/
theorem assignmentNumbers_subset_compared (h : T.enteringColumn rule = none) :
    T.assignmentNumbers read ⊆ T.compared read rule := by
  unfold compared
  rw [h]
  exact List.subset_append_right _ _

/-- The row that leaves is chosen for the entering column. -/
theorem columnEntries_append_subset_compared (h : T.enteringColumn rule = some column) :
    T.columnEntries column ++ T.tieNumbers column rule ⊆ T.compared read rule := by
  unfold compared
  rw [h]
  exact List.subset_append_of_subset_right _ (List.subset_append_left _ _)

/-- The right-hand side of the row that leaves tells whether the pivot is degenerate. -/
theorem rhs_mem_compared (h : T.enteringColumn rule = some column)
    (hrow : T.leavingRow column rule = some row) : T.rhs row ∈ T.compared read rule := by
  unfold compared
  rw [h]
  dsimp only
  rw [hrow]
  exact List.mem_append_right _ (List.mem_append_right _ List.mem_cons_self)

end Compared

/-! ## Tableaux apart from a tolerance -/

/-- There is no tolerance in the tableau, and none of the numbers is one that the tolerance would
take for zero when it is not. -/
structure Apart (T : Tableau ℚ) (numbers : List ℚ) (t : ℚ) : Prop where
  /-- There is no tolerance in the tableau. -/
  tolerance_eq : T.tolerance = 0
  /-- The tolerance is not negative. -/
  nonneg : 0 ≤ t
  /-- Each number is zero or exceeds the tolerance. -/
  apart : ∀ x ∈ numbers, ApartFromZero t x

variable {numbers : List ℚ} {read : ℕ → Bool} {rule : PivotRule} {row column : ℕ}

/-- What is apart for some numbers is apart for fewer. -/
theorem Apart.mono (h : T.Apart numbers t) {fewer : List ℚ} (hfewer : fewer ⊆ numbers) :
    T.Apart fewer t :=
  ⟨h.tolerance_eq, h.nonneg, fun x hx => h.apart x (hfewer hx)⟩

/-- The objective entry of a column is apart from zero. -/
theorem Apart.reducedCost (h : T.Apart T.reducedCosts t) (hcolumn : column < T.columns) :
    ApartFromZero t (T.entry 0 column) := by
  rcases Nat.eq_zero_or_pos T.matrix.height with hheight | hheight
  · exact Or.inl (T.entry_eq_zero_of_height_le hheight.le column)
  · refine h.apart _ ?_
    rw [reducedCosts_eq_map hheight]
    exact List.mem_map.2 ⟨column, List.mem_range.2 hcolumn, rfl⟩

/-- An entry of a constraint row in the column is apart from zero. -/
theorem Apart.columnEntry (h : T.Apart (T.columnEntries column) t) (hrow : row ∈ T.constraintRows) :
    ApartFromZero t (T.entry row column) :=
  h.apart _ (List.mem_map.2 ⟨row, hrow, rfl⟩)

/-! ## The basis -/

/-- The scan for a unit column meets the same entry near one. -/
theorem scanUnit_eq_of_apart (ht : 0 ≤ t) (found : Option ℕ) (row : ℕ) {xs : List ℚ}
    (h : ∀ x ∈ scanNumbers found.isSome xs, ApartFromZero t x) :
    scanUnit t found row xs = scanUnit 0 found row xs := by
  induction xs generalizing found row with
  | nil => rfl
  | cons x xs ih =>
    have hnear : Scalar.isNegligible (0 : ℚ) (x - 1) = decide (x = 1) := by
      rw [Bool.eq_iff_iff, Scalar.isNegligible_iff, abs_nonpos_iff, sub_eq_zero, decide_eq_true_iff]
    have hfar : Scalar.isSignificant (0 : ℚ) x = decide (x ≠ 0) := by
      rw [Bool.eq_iff_iff, Scalar.isSignificant_zero_iff, decide_eq_true_iff]
    unfold scanUnit
    cases found with
    | some unit =>
      obtain ⟨hx, hrest⟩ := List.forall_mem_cons.1 h
      rw [hx.isSignificant_eq ht, hfar]
      by_cases hzero : x = 0
      · rw [if_pos hzero] at hrest
        simp [hzero, ih (some unit) (row + 1) hrest]
      · simp [hzero]
    | none =>
      obtain ⟨hone, hrest⟩ := List.forall_mem_cons.1 h
      rw [hone.isNegligible_eq ht, hnear]
      by_cases hunit : x = 1
      · rw [if_pos hunit] at hrest
        simp [hunit, ih (some row) (row + 1) hrest]
      · rw [if_neg hunit] at hrest
        obtain ⟨hx, hrest⟩ := List.forall_mem_cons.1 hrest
        rw [hx.isSignificant_eq ht, hfar]
        by_cases hzero : x = 0
        · rw [if_pos hzero] at hrest
          simp [hzero, ih none (row + 1) hrest]
        · simp [hunit, hzero]

/-- A column is basic in the same row. -/
theorem Apart.basicRow_eq (h : T.Apart T.basisNumbers t) (hcolumn : column < T.columns) :
    (T.withTolerance t).basicRow column = T.basicRow column := by
  have hcost := (h.mono (List.subset_append_left _ _)).reducedCost hcolumn
  unfold basicRow
  rw [h.tolerance_eq]
  show (if Scalar.isSignificant t (T.entry 0 column) then _ else _) = _
  rw [hcost.isSignificant_eq h.nonneg]
  split
  · rfl
  · rename_i hinsignificant
    -- The column is scanned, as its reduced cost is zero.
    have hzero : T.entry 0 column = 0 := by
      rwa [Scalar.isSignificant_zero_iff, not_not] at hinsignificant
    unfold unitRow
    rw [h.tolerance_eq]
    refine scanUnit_eq_of_apart h.nonneg none 1 fun x hx => h.apart x ?_
    refine List.mem_append_right _ (List.mem_flatMap.2 ⟨column, ?_, hx⟩)
    exact List.mem_filter.2 ⟨List.mem_range.2 hcolumn, decide_eq_true hzero⟩

/-- The rows have the same basic columns. -/
theorem Apart.basicColumn_eq (h : T.Apart T.basisNumbers t) (row : ℕ) :
    (T.withTolerance t).basicColumn row = T.basicColumn row := by
  unfold basicColumn
  refine List.find?_congr fun column hcolumn => ?_
  rw [h.basicRow_eq (List.mem_range.1 hcolumn)]

/-- The basis is the same. -/
theorem Apart.basis_eq (h : T.Apart T.basisNumbers t) : (T.withTolerance t).basis = T.basis := by
  rw [basis_eq_map, basis_eq_map]
  exact List.map_congr_left fun row _ => h.basicColumn_eq row

/-- What values are read off from includes the basis. -/
theorem Apart.basisNumbers (h : T.Apart (T.assignmentNumbers read) t) : T.Apart T.basisNumbers t :=
  h.mono (List.subset_append_left _ _)

/-- The value of a basic column that is read is apart from zero. -/
theorem Apart.basicRhs (h : T.Apart (T.assignmentNumbers read) t) (hrow : row ∈ T.constraintRows)
    (hcolumn : T.basicColumn row = some column) (hread : read column = true) :
    ApartFromZero t (T.rhs row) := by
  refine h.apart _ (List.mem_append_right _ (List.mem_map.2 ⟨(row, column), ?_, rfl⟩))
  exact List.mem_filter.2 ⟨(T.mem_basicPlaces_iff _).2 ⟨hrow, hcolumn⟩, hread⟩

/-- The columns that are read have the same values. -/
theorem Apart.getElem?_assignment_eq (h : T.Apart (T.assignmentNumbers read) t)
    (hread : read column = true) :
    (T.withTolerance t).assignment[column]? = T.assignment[column]? := by
  unfold assignment
  rw [h.basisNumbers.basis_eq, h.tolerance_eq]
  -- The two loops differ in the values of columns that are not read.
  refine (List.foldl_rel (r := fun values values' : List ℚ => values.length = values'.length ∧
    values[column]? = values'[column]?) ⟨rfl, rfl⟩ ?_).2
  rintro ⟨row, column?⟩ hp values values' ⟨hlength, hvalues⟩
  cases column? with
  | none => exact ⟨hlength, hvalues⟩
  | some other =>
    refine ⟨by simpa using hlength, ?_⟩
    rw [List.getElem?_set, List.getElem?_set, hlength, hvalues]
    by_cases hother : other = column
    · obtain ⟨hrow, hcolumn⟩ := (T.mem_constraintRows_zip_basis_iff row other).1 hp
      rw [hother] at hcolumn
      have hvalue : Scalar.isNegligible t (T.rhs row) = Scalar.isNegligible 0 (T.rhs row) :=
        (h.basicRhs hrow hcolumn hread).isNegligible_eq h.nonneg
      show (if other = column then if other < values'.length then
        some (if Scalar.isNegligible t (T.rhs row) then 0 else T.rhs row) else none else _) = _
      rw [hvalue]
    · rw [if_neg hother, if_neg hother]

/-! ## The choice of a pivot -/

/-- The same columns improve the objective. -/
theorem Apart.improvingColumns_eq (h : T.Apart T.reducedCosts t) :
    (T.withTolerance t).improvingColumns = T.improvingColumns := by
  rw [Tableau.improvingColumns_eq (T := T.withTolerance t) h.nonneg,
    Tableau.improvingColumns_eq (T := T) h.tolerance_eq.ge, h.tolerance_eq, neg_zero]
  refine congrArg _ (List.filter_congr fun j hj => ?_)
  exact decide_eq_decide.2 ((h.reducedCost (List.mem_range.1 hj)).lt_neg_iff h.nonneg)

/-- The same column enters. -/
theorem Apart.enteringColumn_eq (h : T.Apart T.reducedCosts t) (rule : PivotRule) :
    (T.withTolerance t).enteringColumn rule = T.enteringColumn rule := by
  cases rule with
  | dantzig | bland =>
    unfold enteringColumn
    dsimp only
    rw [h.improvingColumns_eq]

/-- The column is unbounded in both or in neither. -/
theorem Apart.readUnbounded_eq (h : T.Apart (T.columnEntries column) t) :
    (T.withTolerance t).readUnbounded column = T.readUnbounded column := by
  have hunbounded : (T.withTolerance t).isUnbounded column = T.isUnbounded column := by
    rw [Bool.eq_iff_iff, isUnbounded_iff, isUnbounded_iff, h.tolerance_eq]
    refine forall₂_congr fun i hi => ?_
    exact le_iff_le_iff_lt_iff_lt.2 ((h.columnEntry hi).lt_iff h.nonneg)
  unfold readUnbounded
  rw [hunbounded]
  rfl

/-- The same rows pass the ratio test with the same ratios. -/
theorem Apart.ratios_eq (h : T.Apart (T.columnEntries column) t) :
    (T.withTolerance t).ratios column = T.ratios column := by
  unfold ratios
  refine List.filterMap_congr fun row hrow => ?_
  rw [h.tolerance_eq]
  exact if_congr ((h.columnEntry hrow).lt_iff h.nonneg) rfl rfl

/-- The same row leaves for the column. -/
theorem Apart.leavingRow_eq (h : T.Apart (T.columnEntries column ++ T.tieNumbers column rule) t) :
    (T.withTolerance t).leavingRow column rule = T.leavingRow column rule := by
  have hratios := (h.mono (List.subset_append_left _ _)).ratios_eq
  cases rule with
  | dantzig =>
    unfold leavingRow
    dsimp only
    rw [hratios]
  | bland =>
    have hties := h.mono (List.subset_append_right _ _)
    unfold tieNumbers at hties
    unfold leavingRow
    dsimp only at hties ⊢
    rw [hratios]
    cases hleast : leastNumber ((T.ratios column).map (·.2)) with
    | none => rfl
    | some least =>
      rw [hleast] at hties
      have hgap : ∀ p ∈ T.ratios column, ApartFromZero t (p.2 - least) := fun p hp =>
        hties.apart _ (List.mem_append_left _ (List.mem_map.2 ⟨p, hp, rfl⟩))
      have hbasis : T.Apart T.basisNumbers t := hties.mono (List.subset_append_right _ _)
      dsimp only
      -- A ratio ties with the least one within the tolerance when it is equal to it.
      have hsame : ((T.ratios column).filter fun p => decide (p.2 ≤ least + t)) =
          (T.ratios column).filter fun p => decide (p.2 ≤ least + T.tolerance) := by
        refine List.filter_congr fun p hp => decide_eq_decide.2 ?_
        rw [h.tolerance_eq, add_zero, ← sub_le_iff_le_add', ← sub_nonpos (a := p.2)]
        exact le_iff_le_iff_lt_iff_lt.2 ((hgap p hp).lt_iff h.nonneg)
      rw [hbasis.basis_eq]
      exact congrArg (fun rows => firstLowest (List.map _ rows)) hsame

/-! ## A pivot -/

/-- A pivot is refused for the same reason, or gives the same matrix. -/
theorem Apart.pivot_eq (h : T.Apart [T.entry row column] t) :
    (T.withTolerance t).pivot row column =
      (T.pivot row column).map fun U => U.withTolerance t := by
  -- The tolerance only decides whether the entry is too small.
  have hmatrix : T.matrix.pivot t row column = T.matrix.pivot 0 row column := by
    unfold DenseMatrix.pivot
    cases hread : T.matrix.read row column with
    | error fault => rfl
    | ok entry =>
      obtain ⟨-, rfl⟩ := (DenseMatrix.read_eq_ok_iff _ _ _ _).1 hread
      have hsignificant : Scalar.isSignificant t (T.matrix.entry row column) =
          Scalar.isSignificant 0 (T.matrix.entry row column) :=
        (h.apart _ List.mem_cons_self).isSignificant_eq h.nonneg
      simp only [bind, Except.bind, hsignificant]
  show (do
    let matrix ← T.matrix.pivot t row column
    return { T.withTolerance t with matrix }) = _
  unfold pivot
  rw [hmatrix, h.tolerance_eq]
  cases T.matrix.pivot 0 row column with
  | error fault => rfl
  | ok matrix => rfl

end Tableau

/-! ## A phase -/

/-- The same pivot, with another tolerance in the tableau after it. -/
def PivotStep.withTolerance (step : PivotStep ℚ) (tolerance : ℚ) : PivotStep ℚ :=
  { step with tableau := step.tableau.withTolerance tolerance }

namespace Phase

/-- The same phase, with another tolerance in its tableaux. -/
def withTolerance (phase : Phase ℚ) (tolerance : ℚ) : Phase ℚ :=
  ⟨phase.start.withTolerance tolerance, phase.steps.map (·.withTolerance tolerance), phase.ending⟩

/-- The last tableau is the same but for its tolerance. -/
theorem last_withTolerance (phase : Phase ℚ) (t : ℚ) :
    (phase.withTolerance t).last = phase.last.withTolerance t :=
  phase.last_map fun T => T.withTolerance t

/-- There are as many pivots. -/
theorem iterations_withTolerance (phase : Phase ℚ) (t : ℚ) :
    (phase.withTolerance t).iterations = phase.iterations :=
  phase.iterations_map fun T => T.withTolerance t

variable {settings : Settings ℚ} {T : Tableau ℚ} {read : ℕ → Bool} {t : ℚ}

/-- In a tableau that is apart, the same choices are made under the tolerance as without. -/
theorem sameChoices_withTolerance (htol : settings.tolerance = 0) :
    SameChoices settings (settings.withTolerance t) (fun T => T.withTolerance t)
      fun rule T => T.Apart (T.compared read rule) t where
  maxIterations := rfl
  rule := rfl
  degenerateLimit := rfl
  enteringColumn {rule T} hT :=
    (hT.mono (T.reducedCosts_subset_compared read rule)).enteringColumn_eq rule
  isOptimal {rule T} hT hentering := by
    have hcosts := hT.mono (T.reducedCosts_subset_compared read rule)
    rw [Tableau.isOptimal_of_enteringColumn_eq_none hT.tolerance_eq.ge hentering]
    exact Tableau.isOptimal_of_enteringColumn_eq_none hT.nonneg
      ((hcosts.enteringColumn_eq rule).trans hentering)
  readUnbounded hT _ hentering :=
    (hT.mono (List.append_subset.1
      (Tableau.columnEntries_append_subset_compared hentering)).1).readUnbounded_eq
  readLeavingRow {_ _} hT {_} hentering := by
    unfold Tableau.readLeavingRow
    rw [(hT.mono (Tableau.columnEntries_append_subset_compared hentering)).leavingRow_eq]
    rfl
  readRhs _ _ := rfl
  isSignificant {_ _} hT {_ _ _} hentering hrow hlevel := by
    have hapart := hT.apart _
      (Tableau.rhs_mem_compared hentering (leavingRow_of_readLeavingRow hrow))
    obtain ⟨-, rfl⟩ := (DenseMatrix.read_eq_ok_iff _ _ _ _).1 hlevel
    rw [htol]
    exact hapart.isSignificant_eq hT.nonneg
  pivot {_ _} hT {_ _} hentering hrow := by
    have hmem := Tableau.mem_constraintRows_of_leavingRow (leavingRow_of_readLeavingRow hrow)
    have hcolumn := hT.mono (Tableau.columnEntries_append_subset_compared hentering)
    refine (hcolumn.mono (List.cons_subset.2 ⟨?_, List.nil_subset _⟩)).pivot_eq
    exact List.mem_append_left _ (List.mem_map.2 ⟨_, hmem, rfl⟩)

/-- At an optimal end values are read off in the last tableau. -/
theorem apart_last_of_optimal
    (h : ∀ p ∈ (run settings T).stages settings.rule, p.2.Apart (p.2.compared read p.1) t)
    (hending : (run settings T).ending = .optimal) :
    (run settings T).last.Apart ((run settings T).last.assignmentNumbers read) t := by
  -- No column enters under the rule in force there, since none does under some rule.
  have hruns := runs_pivots settings settings.maxIterations settings.rule 0 T
  rw [show (pivots settings settings.maxIterations settings.rule 0 T).2 = .optimal from hending]
    at hruns
  obtain ⟨rule, hnone⟩ := hruns.enteringColumn_of_optimal
  obtain ⟨rule', hmem⟩ := (run settings T).exists_last_mem_stages settings.rule
  have hnone' : (run settings T).last.enteringColumn rule' = none :=
    (Tableau.enteringColumn_eq_none_iff rule').2 ((Tableau.enteringColumn_eq_none_iff rule).1 hnone)
  exact (h _ hmem).mono (Tableau.assignmentNumbers_subset_compared hnone')

/-- A phase goes through the same matrices when all its stages are apart. -/
theorem run_withTolerance (htol : settings.tolerance = 0)
    (h : ∀ p ∈ (run settings T).stages settings.rule, p.2.Apart (p.2.compared read p.1) t) :
    run (settings.withTolerance t) (T.withTolerance t) = (run settings T).withTolerance t :=
  run_map (sameChoices_withTolerance htol) h

end Phase

end LinProg
