import LinProg.Tableau.Basis
import LinProg.Proofs.RowSpace

/-!
# What the scan for a basis finds

The basis of a tableau is read off its entries. Below the tolerance one half an entry near one is
not near zero, so a scan down a column succeeds exactly on the near unit columns, whatever the order
in which it meets the entries (`unitRow_eq_some_iff`). The basic column of a row (`basicColumn`) is
the first of its near unit columns with an objective entry near zero, and no column is basic in two
rows. The assignment gives a basic column the right-hand side of its row, and every other column
zero (`basis_reports_least`).

Without tolerance the near unit columns are the unit columns (`BasicIn`). -/

namespace LinProg.Tableau

/-! ## The basic column of a row -/

section Columns

variable {α : Type} [Scalar α]

/-- The basic column of a row: the first one that is basic in the row. -/
def basicColumn (T : Tableau α) (row : ℕ) : Option ℕ :=
  (List.range T.columns).find? fun column => T.basicRow column == some row

/-- The basis lists the basic columns of the constraint rows. -/
theorem basis_eq_map (T : Tableau α) : T.basis = T.constraintRows.map T.basicColumn := by
  -- The first pair with the row comes from the first column that is basic in it.
  have hfind : ∀ (columns : List ℕ) (row : ℕ),
      ((columns.filterMap fun column => (T.basicRow column).map fun row => (row, column)).find?
          (·.1 == row)).map (·.2) =
        columns.find? fun column => T.basicRow column == some row := by
    intro columns row
    induction columns with
    | nil => rfl
    | cons c columns ih =>
      rw [List.find?_cons]
      cases h : T.basicRow c with
      | none =>
        rw [List.filterMap_cons_none (by simp [h]), ih]
        rfl
      | some i =>
        rw [List.filterMap_cons_some (by rw [h]; rfl), List.find?_cons]
        by_cases hi : i = row
        · simp [hi]
        · have hne : (i == row) = false := by simpa using hi
          have hne' : (some i == some row) = false := by simpa using hi
          simp only [hne, hne']
          exact ih
  unfold basis basicColumn
  exact List.map_congr_left fun row _ => hfind _ row

/-- The constraint rows come with their basic columns. -/
theorem constraintRows_zip_basis (T : Tableau α) :
    T.constraintRows.zip T.basis = T.constraintRows.map fun row => (row, T.basicColumn row) := by
  rw [basis_eq_map, List.zip_eq_zipWith, List.zipWith_map_right, List.zipWith_self]

/-- A constraint row comes with a column when this is its basic column. -/
theorem mem_constraintRows_zip_basis_iff (T : Tableau α) (row column : ℕ) :
    (row, some column) ∈ T.constraintRows.zip T.basis ↔
      row ∈ T.constraintRows ∧ T.basicColumn row = some column := by
  rw [constraintRows_zip_basis, List.mem_map]
  constructor
  · rintro ⟨i, hi, hpair⟩
    obtain ⟨rfl, hcolumn⟩ := Prod.mk.inj hpair
    exact ⟨hi, hcolumn⟩
  · rintro ⟨hrow, hcolumn⟩
    exact ⟨row, hrow, by rw [hcolumn]⟩

omit [Scalar α] in
/-- The constraint rows are all rows but the first. -/
theorem mem_constraintRows (T : Tableau α) (row : ℕ) :
    row ∈ T.constraintRows ↔ row ≠ 0 ∧ row < T.matrix.height := by
  unfold constraintRows
  rw [List.mem_range'_1]
  omega

/-- The basis has the basic column of a constraint row at the place of the row. -/
theorem getElem?_basis (T : Tableau α) {row : ℕ} (h : row ∈ T.constraintRows) :
    T.basis[row - 1]? = some (T.basicColumn row) := by
  obtain ⟨hne, hlt⟩ := (T.mem_constraintRows row).1 h
  have hrow : T.constraintRows[row - 1]? = some row := by
    unfold constraintRows
    rw [List.getElem?_range' (by omega)]
    congr 1
    omega
  rw [basis_eq_map, List.getElem?_map, hrow]
  rfl

/-- The basis at the place of a constraint row is its basic column. -/
theorem getElem?_basis_join (T : Tableau α) {row : ℕ} (h : row ∈ T.constraintRows) :
    (T.basis[row - 1]?).join = T.basicColumn row := by
  rw [T.getElem?_basis h]
  rfl

/-- The assignment has a value for each column. -/
theorem length_assignment (T : Tableau α) : T.assignment.length = T.columns := by
  -- A value that is put in replaces another one.
  unfold assignment
  refine List.foldlRecOn (motive := fun values : List α => values.length = T.columns) _ _
    List.length_replicate ?_
  rintro values hvalues ⟨row, column?⟩ -
  cases column? with
  | none => exact hvalues
  | some column => exact List.length_set.trans hvalues

end Columns

/-! ## The scan -/

/-- After the unit was met, all further entries must be near zero. -/
theorem scanUnit_some (tolerance : ℚ) (found row : ℕ) (xs : List ℚ) :
    scanUnit tolerance (some found) row xs =
      if ∀ x ∈ xs, |x| ≤ tolerance then some found else none := by
  induction xs generalizing row with
  | nil => simp [scanUnit]
  | cons x xs ih =>
    unfold scanUnit
    simp only [Option.isNone_some, Bool.false_and, Bool.false_eq_true, if_false,
      List.forall_mem_cons]
    by_cases hx : Scalar.isSignificant tolerance x = true
    · have := (Scalar.isSignificant_iff _ _).1 hx
      rw [if_pos hx, if_neg (fun h => absurd h.1 (not_le.2 this))]
    · have := (Scalar.not_isSignificant_iff _ _).1 hx
      rw [if_neg hx, ih]
      simp [this]

/-- The scan finds the one entry near one when all others are near zero. -/
theorem scanUnit_none_eq_some_iff {tolerance : ℚ} (htol : tolerance < 1 / 2) (row : ℕ)
    (xs : List ℚ) (i : ℕ) :
    scanUnit tolerance none row xs = some i ↔
      ∃ k, i = row + k ∧ k < xs.length ∧ |Row.entry xs k - 1| ≤ tolerance ∧
        ∀ l < xs.length, l ≠ k → |Row.entry xs l| ≤ tolerance := by
  -- An entry near one is not near zero, so the first entry decides which member is the unit.
  have hapart : ∀ x : ℚ, |x - 1| ≤ tolerance → ¬|x| ≤ tolerance := by
    intro x h1 h0
    obtain ⟨h1, -⟩ := abs_le.1 h1
    obtain ⟨-, h0⟩ := abs_le.1 h0
    linarith
  induction xs generalizing row with
  | nil => simp [scanUnit]
  | cons x xs ih =>
    unfold scanUnit
    simp only [Option.isNone_none, Bool.true_and]
    by_cases hone : Scalar.isNegligible tolerance (x - 1) = true
    · -- The entry is the unit, and all others have to be near zero.
      have hx : |x - 1| ≤ tolerance := (Scalar.isNegligible_iff _ _).1 hone
      rw [if_pos hone, scanUnit_some]
      constructor
      · intro h
        split at h
        · rename_i hrest
          refine ⟨0, (Option.some.inj h).symm, by simp, hx, fun l hl hne => ?_⟩
          obtain ⟨l, rfl⟩ := Nat.exists_eq_succ_of_ne_zero hne
          have hl' : l < xs.length := by simpa using hl
          have := hrest xs[l] (List.getElem_mem hl')
          simpa [Row.entry, hl'] using this
        · exact absurd h (Option.some_ne_none i).symm
      · rintro ⟨k, rfl, hk, -, hothers⟩
        have hk0 : k = 0 := by
          by_contra hne
          exact hapart x hx (hothers 0 (by simp) (Ne.symm hne))
        subst hk0
        rw [if_pos]
        · rfl
        · intro y hy
          obtain ⟨l, hl, rfl⟩ := List.mem_iff_getElem.1 hy
          have := hothers (l + 1) (by simpa using hl) (Nat.succ_ne_zero l)
          simpa [Row.entry, hl] using this
    · have hx : ¬|x - 1| ≤ tolerance := fun h => hone ((Scalar.isNegligible_iff _ _).2 h)
      rw [if_neg hone]
      by_cases hsig : Scalar.isSignificant tolerance x = true
      · -- Neither near one nor near zero, the entry ends the scan.
        have hbig : ¬|x| ≤ tolerance := not_le.2 ((Scalar.isSignificant_iff _ _).1 hsig)
        rw [if_pos hsig]
        refine ⟨fun h => absurd h (Option.some_ne_none i).symm, ?_⟩
        rintro ⟨k, rfl, hk, hunit, hothers⟩
        by_cases hk0 : k = 0
        · subst hk0
          exact absurd hunit hx
        · exact absurd (hothers 0 (by simp) (Ne.symm hk0)) hbig
      · -- Near zero, the entry leaves the unit to be found further down.
        have hsmall : |x| ≤ tolerance := (Scalar.not_isSignificant_iff _ _).1 hsig
        rw [if_neg hsig]
        refine (ih (row + 1)).trans ⟨?_, ?_⟩
        · rintro ⟨k, rfl, hk, hunit, hothers⟩
          refine ⟨k + 1, by omega, by simpa using hk, by simpa [Row.entry] using hunit,
            fun l hl hne => ?_⟩
          cases l with
          | zero => exact hsmall
          | succ l =>
            simpa [Row.entry] using hothers l (by simpa using hl) (by omega)
        · rintro ⟨k, rfl, hk, hunit, hothers⟩
          cases k with
          | zero => exact absurd hunit hx
          | succ k =>
            refine ⟨k, by omega, by simpa using hk, by simpa [Row.entry] using hunit,
              fun l hl hne => ?_⟩
            simpa [Row.entry] using hothers (l + 1) (by simpa using hl) (by omega)

variable {T : Tableau ℚ}

/-- Within the tolerance, the column is the unit vector of the constraint row. -/
def NearUnit (T : Tableau ℚ) (row column : ℕ) : Prop :=
  row ∈ T.constraintRows ∧ |T.entry row column - 1| ≤ T.tolerance ∧
    ∀ k ∈ T.constraintRows, k ≠ row → |T.entry k column| ≤ T.tolerance

/-- The scan finds a row exactly for the columns that are near its unit vector. -/
theorem unitRow_eq_some_iff (htol : T.tolerance < 1 / 2) (row column : ℕ) :
    T.unitRow column = some row ↔ T.NearUnit row column := by
  -- The scan starts below the objective row, so its place `k` is row `1 + k`.
  have hlen : (T.constraintRows.map (T.entry · column)).length = T.matrix.height - 1 := by
    simp [constraintRows]
  have hentry : ∀ k < T.matrix.height - 1,
      Row.entry (T.constraintRows.map (T.entry · column)) k = T.entry (1 + k) column := by
    intro k hk
    rw [Row.entry_of_lt (by rw [hlen]; exact hk)]
    simp [constraintRows]
  unfold unitRow NearUnit
  rw [scanUnit_none_eq_some_iff htol, hlen]
  simp only [mem_constraintRows]
  constructor
  · rintro ⟨k, rfl, hk, hunit, hothers⟩
    rw [hentry k hk] at hunit
    refine ⟨by omega, hunit, fun i hi hne => ?_⟩
    have := hothers (i - 1) (by omega) (by omega)
    rwa [hentry _ (by omega), Nat.add_sub_cancel' (Nat.one_le_iff_ne_zero.2 hi.1)] at this
  · rintro ⟨hrow, hunit, hothers⟩
    refine ⟨row - 1, by omega, by omega, ?_, fun l hl hne => ?_⟩
    · rwa [hentry _ (by omega), Nat.add_sub_cancel' (Nat.one_le_iff_ne_zero.2 hrow.1)]
    · rw [hentry l hl]
      exact hothers (1 + l) (by omega) (by omega)

/-- Within the tolerance, the column is the unit vector of the constraint row, and its objective
entry is zero. -/
def NearBasic (T : Tableau ℚ) (row column : ℕ) : Prop :=
  |T.entry 0 column| ≤ T.tolerance ∧ T.NearUnit row column

/-- A column is basic in a row when it is near the unit vector of the row, with an objective entry
near zero. -/
theorem basicRow_eq_some_iff (htol : T.tolerance < 1 / 2) (row column : ℕ) :
    T.basicRow column = some row ↔ T.NearBasic row column := by
  unfold basicRow NearBasic
  rw [← unitRow_eq_some_iff htol]
  split
  · rename_i h
    have := (Scalar.isSignificant_iff _ _).1 h
    exact ⟨nofun, fun h => absurd h.1 (not_le.2 this)⟩
  · rename_i h
    have := (Scalar.not_isSignificant_iff _ _).1 h
    simp [this]

/-- The basic column of a row is the first that is near basic in it. -/
theorem basicColumn_eq_some_iff (htol : T.tolerance < 1 / 2) (row column : ℕ) :
    T.basicColumn row = some column ↔
      column < T.columns ∧ T.NearBasic row column ∧ ∀ c < column, ¬T.NearBasic row c := by
  unfold basicColumn
  rw [List.find?_range_eq_some]
  simp only [beq_iff_eq, basicRow_eq_some_iff htol, List.mem_range, Bool.not_eq_true',
    beq_eq_false_iff_ne, ne_eq]
  tauto

/-- A row that has a near basic column has a basic column, at or before it. -/
theorem NearBasic.exists_basicColumn (htol : T.tolerance < 1 / 2) {row column : ℕ}
    (h : T.NearBasic row column) (hcolumn : column < T.columns) :
    ∃ c ≤ column, T.basicColumn row = some c := by
  classical
  have hex : ∃ c, T.NearBasic row c := ⟨column, h⟩
  have hle : Nat.find hex ≤ column := Nat.find_min' hex h
  refine ⟨Nat.find hex, hle, ?_⟩
  rw [basicColumn_eq_some_iff htol]
  exact ⟨lt_of_le_of_lt hle hcolumn, Nat.find_spec hex, fun c hc => Nat.find_min hex hc⟩

/-- A column is near the unit vector of one row only. -/
theorem NearUnit.row_eq {row other column : ℕ} (htol : T.tolerance < 1 / 2)
    (h : T.NearUnit row column) (k : T.NearUnit other column) : row = other := by
  by_contra hne
  obtain ⟨-, h0⟩ := abs_le.1 (k.2.2 row h.1 hne)
  obtain ⟨h1, -⟩ := abs_le.1 h.2.1
  linarith

/-- No column is the basic column of two rows. -/
theorem row_eq_of_basicColumn {row other column : ℕ} (htol : T.tolerance < 1 / 2)
    (h : T.basicColumn row = some column) (k : T.basicColumn other = some column) :
    row = other :=
  NearUnit.row_eq htol ((basicColumn_eq_some_iff htol row column).1 h).2.1.2
    ((basicColumn_eq_some_iff htol other column).1 k).2.1.2

/-- A row with a basic column is a constraint row. -/
theorem mem_constraintRows_of_basicColumn {row column : ℕ} (htol : T.tolerance < 1 / 2)
    (h : T.basicColumn row = some column) : row ∈ T.constraintRows :=
  ((basicColumn_eq_some_iff htol row column).1 h).2.1.2.1

/-- A basic column is a column of the tableau. -/
theorem lt_columns_of_basicColumn {α : Type} [Scalar α] {T : Tableau α} {row column : ℕ}
    (h : T.basicColumn row = some column) : column < T.columns :=
  List.mem_range.1 (List.mem_of_find?_eq_some h)

/-! ## The assignment -/

section Assignment

/-- The value that the assignment gives to the basic column of a row: its right-hand side, zero
within the tolerance. -/
def basicValue (T : Tableau ℚ) (row : ℕ) : ℚ :=
  if |T.rhs row| ≤ T.tolerance then 0 else T.rhs row

/-- The assignment goes over the constraint rows and puts the value of each to its basic column. -/
theorem assignment_eq_foldl (T : Tableau ℚ) :
    T.assignment = T.constraintRows.foldl (fun values row =>
      match T.basicColumn row with
      | some column => values.set column (T.basicValue row)
      | none => values) (List.replicate T.columns 0) := by
  unfold assignment
  rw [constraintRows_zip_basis, List.foldl_map]
  congr 1
  funext values row
  cases T.basicColumn row with
  | none => rfl
  | some column =>
    simp only [basicValue, Scalar.isNegligible_iff]

/-- Putting values to basic columns changes only the columns that are basic in one of the rows. -/
theorem entry_foldl_assign (htol : T.tolerance < 1 / 2) (rows : List ℕ) (values : List ℚ)
    (hlen : values.length = T.columns) (j : ℕ) :
    let assigned := rows.foldl (fun values row =>
      match T.basicColumn row with
      | some column => values.set column (T.basicValue row)
      | none => values) values
    assigned.length = T.columns ∧
      (∀ row ∈ rows, T.basicColumn row = some j → Row.entry assigned j = T.basicValue row) ∧
      ((∀ row ∈ rows, T.basicColumn row ≠ some j) → Row.entry assigned j = Row.entry values j) := by
  induction rows using List.reverseRecOn with
  | nil => exact ⟨hlen, fun _ h => absurd h (by simp), fun _ => rfl⟩
  | append_singleton rows last ih =>
    obtain ⟨hl, hassigned, hkept⟩ := ih
    rw [List.foldl_append, List.foldl_cons, List.foldl_nil]
    simp only [List.forall_mem_append, List.forall_mem_singleton]
    generalize rows.foldl _ values = assigned at hl hassigned hkept ⊢
    cases hlast : T.basicColumn last with
    | none =>
      exact ⟨hl, ⟨hassigned, fun h => absurd h nofun⟩, fun h => hkept h.1⟩
    | some column =>
      have hset := Row.entry_set assigned (k := column)
        (by rw [hl]; exact lt_columns_of_basicColumn hlast) (T.basicValue last) j
      refine ⟨by simpa using hl, ⟨fun row hrow hj => ?_, fun h => ?_⟩, fun h => ?_⟩
      · -- A column put twice is basic in two rows, which are one.
        by_cases hjc : j = column
        · subst hjc
          rw [hset, if_pos rfl, row_eq_of_basicColumn htol hj hlast]
        · rw [hset, if_neg hjc]
          exact hassigned row hrow hj
      · rw [hset, if_pos (Option.some.inj h).symm]
      · rw [hset, if_neg (fun hjc => h.2 (by rw [hjc]))]
        exact hkept h.1

/-- A basic column has the right-hand side of its row, zero within the tolerance. -/
theorem entry_assignment_of_basicColumn (htol : T.tolerance < 1 / 2) {row column : ℕ}
    (h : T.basicColumn row = some column) :
    Row.entry T.assignment column = T.basicValue row := by
  rw [assignment_eq_foldl]
  exact (entry_foldl_assign htol T.constraintRows _ (by simp) column).2.1 row
    (mem_constraintRows_of_basicColumn htol h) h

/-- A column that is not basic has the value zero. -/
theorem entry_assignment_of_forall_ne (htol : T.tolerance < 1 / 2) {column : ℕ}
    (h : ∀ row, T.basicColumn row ≠ some column) : Row.entry T.assignment column = 0 := by
  rw [assignment_eq_foldl, (entry_foldl_assign htol T.constraintRows _ (by simp) column).2.2
    fun row _ => h row]
  exact Row.entry_replicate_zero T.columns column

end Assignment

/-! ## What is read off a tableau -/

/-- The basis has the basic column of each constraint row, from the first row on. -/
theorem getElem?_basis_of_lt {i : ℕ} (h : i < T.matrix.height - 1) :
    T.basis[i]? = some (T.basicColumn (i + 1)) := by
  have hrow : i + 1 ∈ T.constraintRows := (T.mem_constraintRows (i + 1)).2 ⟨by omega, by omega⟩
  exact T.getElem?_basis hrow

/-- The basis has a column for no more than the constraint rows. -/
theorem length_basis (T : Tableau ℚ) : T.basis.length = T.matrix.height - 1 := by
  rw [basis_eq_map, List.length_map]
  exact List.length_range'

/-- A column that the basis reports is the basic column of its row. -/
theorem basicColumn_of_getElem?_basis {i column : ℕ} (h : T.basis[i]? = some (some column)) :
    T.basicColumn (i + 1) = some column := by
  have hlt : i < T.matrix.height - 1 := by
    rw [← T.length_basis]
    exact (List.getElem?_eq_some_iff.1 h).1
  exact Option.some.inj ((getElem?_basis_of_lt hlt).symm.trans h)

/-- The basic column of a row is the least of the columns that are near basic in it. -/
theorem basicColumn_eq_some_iff_isLeast (htol : T.tolerance < 1 / 2) (row column : ℕ) :
    T.basicColumn row = some column ↔
      IsLeast {c | c < T.columns ∧ T.NearBasic row c} column := by
  rw [basicColumn_eq_some_iff htol]
  constructor
  · rintro ⟨hlt, hnear, hfirst⟩
    refine ⟨⟨hlt, hnear⟩, fun c hc => ?_⟩
    by_contra hless
    exact hfirst c (not_le.1 hless) hc.2
  · rintro ⟨⟨hlt, hnear⟩, hleast⟩
    refine ⟨hlt, hnear, fun c hc hbasic => ?_⟩
    exact absurd (hleast ⟨hc.trans hlt, hbasic⟩) (not_le.2 hc)

/-- Below the tolerance one half, the basis reports for each constraint row the least column that is
near its unit vector and has an objective entry near zero, and none when there is no such column. It
reports no column twice. The assignment gives a reported column the right-hand side of its row, zero
within the tolerance, and every other column zero. -/
theorem basis_reports_least (T : Tableau ℚ) (htol : T.tolerance < 1 / 2) :
    T.basis.length = T.matrix.height - 1 ∧
    (∀ i < T.matrix.height - 1,
      (∀ column, T.basis[i]? = some (some column) ↔
        IsLeast {c | c < T.columns ∧ T.NearBasic (i + 1) c} column) ∧
      (T.basis[i]? = some none ↔ ∀ c < T.columns, ¬T.NearBasic (i + 1) c)) ∧
    (∀ i j column : ℕ, T.basis[i]? = some (some column) → T.basis[j]? = some (some column) →
      i = j) ∧
    T.assignment.length = T.columns ∧
    (∀ i column : ℕ, T.basis[i]? = some (some column) →
      T.assignment[column]? =
        some (if |T.rhs (i + 1)| ≤ T.tolerance then 0 else T.rhs (i + 1))) ∧
    ∀ column < T.columns, (∀ i : ℕ, T.basis[i]? ≠ some (some column)) →
      T.assignment[column]? = some 0 := by
  have hvalue : ∀ column < T.columns,
      T.assignment[column]? = some (Row.entry T.assignment column) := by
    intro column hcolumn
    rw [← T.length_assignment] at hcolumn
    rw [Row.entry_of_lt hcolumn]
    exact List.getElem?_eq_getElem hcolumn
  refine ⟨T.length_basis, fun i hi => ⟨fun column => ?_, ?_⟩, fun i j column hi hj => ?_,
    T.length_assignment, fun i column hi => ?_, fun column hcolumn hnone => ?_⟩
  · rw [getElem?_basis_of_lt hi, Option.some.injEq]
    exact basicColumn_eq_some_iff_isLeast htol (i + 1) column
  · rw [getElem?_basis_of_lt hi, Option.some.injEq]
    constructor
    · intro hnone c hc hbasic
      obtain ⟨d, -, hd⟩ := hbasic.exists_basicColumn htol hc
      exact absurd (hnone.symm.trans hd) nofun
    · intro hnone
      by_contra hsome
      obtain ⟨c, hc⟩ := Option.ne_none_iff_exists'.1 hsome
      obtain ⟨hlt, hbasic, -⟩ := (basicColumn_eq_some_iff htol (i + 1) c).1 hc
      exact hnone c hlt hbasic
  · have hrow := row_eq_of_basicColumn htol (basicColumn_of_getElem?_basis hi)
      (basicColumn_of_getElem?_basis hj)
    omega
  · have hbasic := basicColumn_of_getElem?_basis hi
    rw [hvalue column (lt_columns_of_basicColumn hbasic),
      entry_assignment_of_basicColumn htol hbasic]
    rfl
  · rw [hvalue column hcolumn, entry_assignment_of_forall_ne htol fun row hbasic => ?_]
    obtain ⟨hne, hlt⟩ := (T.mem_constraintRows row).1
      (mem_constraintRows_of_basicColumn htol hbasic)
    obtain ⟨i, rfl⟩ := Nat.exists_eq_add_one_of_ne_zero hne
    exact hnone i (by rw [getElem?_basis_of_lt (by omega), hbasic])

/-- A tableau with the tolerance 1/4. Its first and second column are near the unit vectors of the
first and the second constraint row, and so is the third, that of the first row again. The fourth
is a unit vector, but its objective entry is too large. The right-hand side of the second row is
near zero, and the third row is all zero. -/
def nearUnitTableau : Tableau ℚ where
  model := ⟨"near", [⟨0, "x"⟩, ⟨1, "y"⟩, ⟨2, "z"⟩, ⟨3, "w"⟩], [], none⟩
  tolerance := 1 / 4
  matrix := ⟨[[1 / 5, 0, 0, 1, 9], [9 / 10, 1 / 8, 1, 0, 3], [-1 / 4, 5 / 4, 0, 1, -1 / 8],
    [0, 0, 0, 0, 0]], by decide⟩

/-- The basis of that tableau has the first column for the first row, the second for the second, and
none for the third. -/
theorem basis_reports_least_near :
    nearUnitTableau.tolerance < 1 / 2 ∧
    nearUnitTableau.basis[0]? = some (some 0) ∧ nearUnitTableau.basis[1]? = some (some 1) ∧
    nearUnitTableau.basis[2]? = some none ∧
    IsLeast {c | c < nearUnitTableau.columns ∧ nearUnitTableau.NearBasic 1 c} 0 ∧
    IsLeast {c | c < nearUnitTableau.columns ∧ nearUnitTableau.NearBasic 2 c} 1 ∧
    (∀ c < nearUnitTableau.columns, ¬nearUnitTableau.NearBasic 3 c) ∧
    nearUnitTableau.assignment[0]? = some 3 ∧ nearUnitTableau.assignment[1]? = some 0 ∧
    nearUnitTableau.assignment[2]? = some 0 := by
  have htol : nearUnitTableau.tolerance < 1 / 2 := by decide +kernel
  have hbasis : nearUnitTableau.basis = [some 0, some 1, none] := by decide +kernel
  have hrhs : nearUnitTableau.rhs 1 = 3 ∧ nearUnitTableau.rhs 2 = -1 / 8 := by decide +kernel
  obtain ⟨-, hrows, -, -, hreported, hothers⟩ := basis_reports_least nearUnitTableau htol
  have hfirst : nearUnitTableau.basis[0]? = some (some 0) := by rw [hbasis]; rfl
  have hsecond : nearUnitTableau.basis[1]? = some (some 1) := by rw [hbasis]; rfl
  have hthird : nearUnitTableau.basis[2]? = some none := by rw [hbasis]; rfl
  have hnone : ∀ i : ℕ, nearUnitTableau.basis[i]? ≠ some (some 2) := by
    intro i hi
    have hmem := List.mem_of_getElem? hi
    rw [hbasis] at hmem
    exact absurd hmem (by decide)
  refine ⟨htol, hfirst, hsecond, hthird, ((hrows 0 (by decide)).1 0).1 hfirst,
    ((hrows 1 (by decide)).1 1).1 hsecond, (hrows 2 (by decide)).2.1 hthird, ?_, ?_,
    hothers 2 (by decide) hnone⟩
  · rw [hreported 0 0 hfirst, hrhs.1]
    decide +kernel
  · rw [hreported 1 1 hsecond, hrhs.2]
    decide +kernel

/-! ## Unit columns -/

/-- Below the objective row, the column is the unit vector of the constraint row. -/
structure UnitIn (T : Tableau ℚ) (row column : ℕ) : Prop where
  /-- The column is one of the variables. -/
  lt_columns : column < T.columns
  /-- The row is a constraint row. -/
  row_ne_zero : row ≠ 0
  /-- The entry in the row is one. -/
  entry_eq_one : T.entry row column = 1
  /-- The entries of the other constraint rows are zero. -/
  entry_eq_zero : ∀ k ≠ 0, k ≠ row → T.entry k column = 0

/-- A unit column makes its row a constraint row of the tableau. -/
theorem UnitIn.mem_constraintRows {row column : ℕ} (h : T.UnitIn row column) :
    row ∈ T.constraintRows :=
  (T.mem_constraintRows row).2
    ⟨h.row_ne_zero, lt_height_of_entry_ne_zero (by rw [h.entry_eq_one]; exact one_ne_zero)⟩

/-- A column is the unit vector of one row at most. -/
theorem UnitIn.row_eq {row other column : ℕ} (h : T.UnitIn row column)
    (k : T.UnitIn other column) : row = other := by
  by_contra hne
  have hone := h.entry_eq_one
  rw [k.entry_eq_zero row h.row_ne_zero hne] at hone
  exact zero_ne_one hone

/-- A unit column with an objective entry near zero is one within the tolerance. -/
theorem UnitIn.nearBasic {row column : ℕ} (h : T.UnitIn row column)
    (hcost : |T.entry 0 column| ≤ T.tolerance) : T.NearBasic row column := by
  have hzero : |(0 : ℚ)| ≤ T.tolerance := by
    rw [abs_zero]
    exact (abs_nonneg _).trans hcost
  refine ⟨hcost, h.mem_constraintRows, ?_, fun k hk hne => ?_⟩
  · rw [h.entry_eq_one, sub_self]
    exact hzero
  · rw [h.entry_eq_zero k ((T.mem_constraintRows k).1 hk).1 hne]
    exact hzero

/-- The constraint rows that have a basic column, each with that column. -/
def basicPlaces (T : Tableau ℚ) : List (ℕ × ℕ) :=
  T.constraintRows.filterMap fun row => (T.basicColumn row).map fun column => (row, column)

/-- A place is that of the basic column of a constraint row. -/
theorem mem_basicPlaces_iff (T : Tableau ℚ) (p : ℕ × ℕ) :
    p ∈ T.basicPlaces ↔ p.1 ∈ T.constraintRows ∧ T.basicColumn p.1 = some p.2 := by
  unfold basicPlaces
  rw [List.mem_filterMap]
  constructor
  · rintro ⟨row, hrow, hp⟩
    obtain ⟨column, hcolumn, rfl⟩ := Option.map_eq_some_iff.1 hp
    exact ⟨hrow, hcolumn⟩
  · rintro ⟨hrow, hcolumn⟩
    exact ⟨p.1, hrow, by rw [hcolumn]; rfl⟩

/-- The columns that the basis reports are unit vectors, and not only near ones. -/
def HasUnitBasis (T : Tableau ℚ) : Prop :=
  ∀ p ∈ T.basicPlaces, ∀ i ∈ T.constraintRows, T.entry i p.2 = if i = p.1 then 1 else 0

instance (T : Tableau ℚ) : Decidable T.HasUnitBasis :=
  inferInstanceAs (Decidable (∀ p ∈ T.basicPlaces, ∀ i ∈ T.constraintRows, _))

/-- When the basis reports unit vectors only, a basic column is the unit vector of its row. -/
theorem HasUnitBasis.unitIn (h : T.HasUnitBasis) (htol : T.tolerance < 1 / 2) {row column : ℕ}
    (hc : T.basicColumn row = some column) : T.UnitIn row column := by
  have hrow := mem_constraintRows_of_basicColumn htol hc
  have hentry := h _ ((T.mem_basicPlaces_iff (row, column)).2 ⟨hrow, hc⟩)
  refine ⟨lt_columns_of_basicColumn hc, ((T.mem_constraintRows row).1 hrow).1, ?_,
    fun k hk hne => ?_⟩
  · rw [hentry row hrow, if_pos rfl]
  · rcases lt_or_ge k T.matrix.height with hlt | hbelow
    · rw [hentry k ((T.mem_constraintRows k).2 ⟨hk, hlt⟩), if_neg hne]
    · exact T.entry_eq_zero_of_height_le hbelow column

/-! ## Without tolerance -/

/-- No tolerance is less than one half. -/
theorem tolerance_lt_half (htol : T.tolerance = 0) : T.tolerance < 1 / 2 := by
  rw [htol]
  norm_num

/-- The column is the unit vector of the constraint row, with objective entry zero. -/
structure BasicIn (T : Tableau ℚ) (row column : ℕ) : Prop where
  /-- The column is one of the variables. -/
  lt_columns : column < T.columns
  /-- The row is a constraint row. -/
  row_ne_zero : row ≠ 0
  /-- The entry in the row is one. -/
  entry_eq_one : T.entry row column = 1
  /-- All other entries are zero, that of the objective row included. -/
  entry_eq_zero : ∀ k ≠ row, T.entry k column = 0

/-- A basic column is a unit column. -/
theorem BasicIn.unitIn {row column : ℕ} (h : T.BasicIn row column) : T.UnitIn row column :=
  ⟨h.lt_columns, h.row_ne_zero, h.entry_eq_one, fun k _ hk => h.entry_eq_zero k hk⟩

/-- A unit column with objective entry zero is basic. -/
theorem UnitIn.basicIn {row column : ℕ} (h : T.UnitIn row column) (hcost : T.entry 0 column = 0) :
    T.BasicIn row column := by
  refine ⟨h.lt_columns, h.row_ne_zero, h.entry_eq_one, fun k hk => ?_⟩
  by_cases hk0 : k = 0
  · rw [hk0]
    exact hcost
  · exact h.entry_eq_zero k hk0 hk

/-- A basic column makes its row a constraint row of the tableau. -/
theorem BasicIn.mem_constraintRows {row column : ℕ} (h : T.BasicIn row column) :
    row ∈ T.constraintRows :=
  h.unitIn.mem_constraintRows

/-- The objective entry of a basic column is near zero. -/
theorem BasicIn.abs_entry_zero_le {row column : ℕ} (htol : 0 ≤ T.tolerance)
    (h : T.BasicIn row column) : |T.entry 0 column| ≤ T.tolerance := by
  rw [h.entry_eq_zero 0 h.row_ne_zero.symm, abs_zero]
  exact htol

/-- A basic column is basic within the tolerance. -/
theorem BasicIn.nearBasic {row column : ℕ} (htol : 0 ≤ T.tolerance) (h : T.BasicIn row column) :
    T.NearBasic row column :=
  h.unitIn.nearBasic (h.abs_entry_zero_le htol)

/-- A column is basic in one row only. -/
theorem BasicIn.row_eq {row other column : ℕ} (h : T.BasicIn row column)
    (k : T.BasicIn other column) : row = other :=
  h.unitIn.row_eq k.unitIn

/-- Two columns that are basic in one row are equal. -/
theorem BasicIn.column_eq {row b c : ℕ} (hb : T.BasicIn row b) (hc : T.BasicIn row c) (k : ℕ) :
    T.entry k b = T.entry k c := by
  by_cases hk : k = row
  · rw [hk, hb.entry_eq_one, hc.entry_eq_one]
  · rw [hb.entry_eq_zero k hk, hc.entry_eq_zero k hk]

/-- No column is basic in a zero row. -/
theorem not_basicIn_of_forall_entry_eq_zero {row column : ℕ} (hzero : ∀ j, T.entry row j = 0) :
    ¬T.BasicIn row column := by
  intro h
  have hone := h.entry_eq_one
  rw [hzero] at hone
  exact zero_ne_one hone

/-- Without tolerance the near basic columns are the basic ones. -/
theorem nearBasic_iff_of_exact (htol : T.tolerance = 0) {row column : ℕ}
    (hcolumn : column < T.columns) : T.NearBasic row column ↔ T.BasicIn row column := by
  unfold NearBasic NearUnit
  rw [htol]
  simp only [abs_nonpos_iff, sub_eq_zero]
  constructor
  · rintro ⟨hobjective, hrow, hone, hothers⟩
    refine ⟨hcolumn, ((T.mem_constraintRows row).1 hrow).1, hone, fun k hk => ?_⟩
    by_cases hk0 : k = 0
    · rw [hk0]
      exact hobjective
    · by_contra hne
      exact hne (hothers k ((T.mem_constraintRows k).2
        ⟨hk0, lt_height_of_entry_ne_zero hne⟩) hk)
  · intro h
    exact ⟨h.entry_eq_zero 0 h.row_ne_zero.symm, h.mem_constraintRows, h.entry_eq_one,
      fun k _ hk => h.entry_eq_zero k hk⟩

/-- Without tolerance the basic column of a row is its first unit column with objective entry
zero. -/
theorem basicColumn_eq_some_iff_of_exact (htol : T.tolerance = 0) (row column : ℕ) :
    T.basicColumn row = some column ↔
      T.BasicIn row column ∧ ∀ c < column, ¬T.BasicIn row c := by
  rw [basicColumn_eq_some_iff (tolerance_lt_half htol)]
  constructor
  · rintro ⟨hlt, hnear, hfirst⟩
    refine ⟨(nearBasic_iff_of_exact htol hlt).1 hnear, fun c hc h => hfirst c hc ?_⟩
    exact (nearBasic_iff_of_exact htol h.lt_columns).2 h
  · rintro ⟨h, hfirst⟩
    refine ⟨h.lt_columns, (nearBasic_iff_of_exact htol h.lt_columns).2 h, fun c hc hn => ?_⟩
    exact hfirst c hc ((nearBasic_iff_of_exact htol (lt_trans hc h.lt_columns)).1 hn)

/-- Without tolerance the basic column of a row is basic in it. -/
theorem basicIn_of_basicColumn (htol : T.tolerance = 0) {row column : ℕ}
    (h : T.basicColumn row = some column) : T.BasicIn row column :=
  ((basicColumn_eq_some_iff_of_exact htol row column).1 h).1

/-- Without tolerance the basis reports unit vectors only. -/
theorem hasUnitBasis_of_exact (htol : T.tolerance = 0) : T.HasUnitBasis := by
  intro p hp i _
  have hbasic := basicIn_of_basicColumn htol ((T.mem_basicPlaces_iff p).1 hp).2
  split
  · rename_i hi
    rw [hi, hbasic.entry_eq_one]
  · rename_i hi
    exact hbasic.entry_eq_zero i hi

/-- The objective entry of a basic column is zero. -/
theorem entry_zero_eq_zero_of_basicColumn (htol : T.tolerance = 0) {row column : ℕ}
    (h : T.basicColumn row = some column) : T.entry 0 column = 0 := by
  have hbasic := basicIn_of_basicColumn htol h
  exact hbasic.entry_eq_zero 0 hbasic.row_ne_zero.symm

/-- A column whose objective entry is not zero is not basic. -/
theorem basicColumn_ne_of_entry_zero_ne (htol : T.tolerance = 0) {column : ℕ}
    (h : T.entry 0 column ≠ 0) (row : ℕ) : T.basicColumn row ≠ some column :=
  fun hbasic => h (entry_zero_eq_zero_of_basicColumn htol hbasic)

/-- A row that has a unit column has a basic column, at or before it. -/
theorem BasicIn.exists_basicColumn (htol : T.tolerance = 0) {row column : ℕ}
    (h : T.BasicIn row column) : ∃ c ≤ column, T.basicColumn row = some c :=
  (h.nearBasic htol.ge).exists_basicColumn (tolerance_lt_half htol) h.lt_columns

end LinProg.Tableau
