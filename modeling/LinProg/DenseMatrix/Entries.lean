import LinProg.DenseMatrix

/-!
# The entries of a changed matrix

What each total change does to the entries, and when the checked operations succeed. With these
the operations need not be unfolded: `pivot_eq_ok_iff` says which pivots are possible and that they
multiply a row, set one entry and clear a column, and the `entry` lemmas say what the three do.
Operations made of several steps are taken apart with `bind_eq_ok_iff`. -/

namespace LinProg

/-- Two computations in a row have a result when the first has one from which the second does. -/
theorem bind_eq_ok_iff {ε β γ : Type} (first : Except ε β) (next : β → Except ε γ) (c : γ) :
    first >>= next = .ok c ↔ ∃ b, first = .ok b ∧ next b = .ok c := by
  cases first with
  | error e => simp [bind, Except.bind]
  | ok b => simp [bind, Except.bind]

variable {α : Type} [Scalar α]

namespace Row

theorem entry_of_lt {row : List α} {j : Nat} (hj : j < row.length) : entry row j = row[j] := by
  simp [entry, hj]

theorem entry_of_length_le {row : List α} {j : Nat} (hj : row.length ≤ j) : entry row j = 0 := by
  simp [entry, hj]

theorem entry_map (f : α → α) {row : List α} {j : Nat} (hj : j < row.length) :
    entry (row.map f) j = f (entry row j) := by
  rw [entry_of_lt hj, entry_of_lt (by simpa using hj)]
  simp

/-- Putting a scalar at a place changes that place only. -/
theorem entry_set (row : List α) {k : Nat} (hk : k < row.length) (x : α) (j : Nat) :
    entry (row.set k x) j = if j = k then x else entry row j := by
  unfold entry
  rw [List.getElem?_set]
  by_cases hjk : j = k
  · subst hjk
    simp [hk]
  · rw [if_neg (fun h => hjk h.symm), if_neg hjk]

/-- The difference of two rows of one length is taken entry by entry. -/
theorem entry_subtractMultiple (factor : α) (target source : List α) (j : Nat)
    (hj : j < target.length) (hlen : target.length = source.length) :
    entry (subtractMultiple factor target source) j =
      entry target j - factor * entry source j := by
  induction target generalizing source j with
  | nil => exact absurd hj (Nat.not_lt_zero j)
  | cons x target ih =>
    cases source with
    | nil => exact absurd hlen (Nat.succ_ne_zero _)
    | cons y source =>
      cases j with
      | zero => simp [subtractMultiple, entry]
      | succ j =>
        have := ih source j (by simpa using hj) (by simpa using hlen)
        simpa [subtractMultiple, entry] using this

/-- Elimination subtracts a multiple of the source, unless the factor is zero. -/
theorem entry_eliminate (factor : α) (target source : List α) (j : Nat)
    (hj : j < target.length) (hlen : target.length = source.length) :
    entry (eliminate factor target source) j =
      if factor == 0 then entry target j else entry target j - factor * entry source j := by
  unfold eliminate
  split
  · rfl
  · exact entry_subtractMultiple factor target source j hj hlen

end Row

namespace DenseMatrix

variable {n : Nat}

/-! ## Total changes -/

theorem entry_mapRows (M : DenseMatrix α n) (f : Nat → List α → List α)
    (hf : ∀ i row, (f i row).length = row.length) {i : Nat} (hi : i < M.height) (j : Nat) :
    (M.mapRows f hf).entry i j = Row.entry (f i (M.row i)) j := by
  rw [entry, row_mapRows, if_pos hi]

omit [Scalar α] in
@[simp] theorem height_updateEntry (M : DenseMatrix α n) (i j : Nat) (x : α) :
    (M.updateEntry i j x).height = M.height :=
  height_mapRows ..

@[simp] theorem height_multiplyRow (M : DenseMatrix α n) (i : Nat) (factor : α) :
    (M.multiplyRow i factor).height = M.height :=
  height_mapRows ..

@[simp] theorem height_eliminateRow (M : DenseMatrix α n) (target source : Nat) (factor : α) :
    (M.eliminateRow target source factor).height = M.height :=
  height_mapRows ..

@[simp] theorem height_eliminateColumn (M : DenseMatrix α n) (source column : Nat) :
    (M.eliminateColumn source column).height = M.height :=
  height_mapRows ..

/-- Putting a scalar at an existing place changes that place only. -/
theorem entry_updateEntry (M : DenseMatrix α n) {i j : Nat} (hj : j < n) (x : α) {k : Nat}
    (hk : k < M.height) (l : Nat) :
    (M.updateEntry i j x).entry k l = if k = i ∧ l = j then x else M.entry k l := by
  rw [updateEntry, entry_mapRows _ _ _ hk]
  by_cases hki : k = i
  · rw [if_pos hki, Row.entry_set _ (by rw [M.length_row_of_lt hk]; exact hj)]
    simp [hki, entry]
  · rw [if_neg hki, if_neg (fun h => hki h.1), entry]

/-- Multiplying a row multiplies its entries. -/
theorem entry_multiplyRow (M : DenseMatrix α n) (i : Nat) (factor : α) {k l : Nat}
    (hk : k < M.height) (hl : l < n) :
    (M.multiplyRow i factor).entry k l =
      if k = i then M.entry k l * factor else M.entry k l := by
  rw [multiplyRow, entry_mapRows _ _ _ hk]
  by_cases hki : k = i
  · rw [if_pos hki, if_pos hki, Row.entry_map _ (by rw [M.length_row_of_lt hk]; exact hl), entry]
  · rw [if_neg hki, if_neg hki, entry]

/-- A row operation changes the target row only, and not when the factor is zero. -/
theorem entry_eliminateRow (M : DenseMatrix α n) {target source : Nat} (factor : α)
    (hs : source < M.height) {k l : Nat} (hk : k < M.height) (hl : l < n) :
    (M.eliminateRow target source factor).entry k l =
      if k = target ∧ k ≠ source then
        if factor == 0 then M.entry k l else M.entry k l - factor * M.entry source l
      else M.entry k l := by
  rw [eliminateRow, entry_mapRows _ _ _ hk]
  by_cases hkt : k = target ∧ k ≠ source
  · rw [if_pos hkt, if_pos hkt,
      Row.entry_eliminate _ _ _ _ (by rw [M.length_row_of_lt hk]; exact hl)
        (by rw [M.length_row_of_lt hk, M.length_row_of_lt hs])]
    rfl
  · rw [if_neg hkt, if_neg hkt, entry]

/-- Clearing a column leaves the source row alone, makes every other entry of the column zero, and
subtracts from each other row its multiple of the source row. -/
theorem entry_eliminateColumn (M : DenseMatrix α n) {source column : Nat} (hs : source < M.height)
    (hc : column < n) {k l : Nat} (hk : k < M.height) (hl : l < n) :
    (M.eliminateColumn source column).entry k l =
      if k = source then M.entry k l
      else if l = column then 0
      else if M.entry k column == 0 then M.entry k l
      else M.entry k l - M.entry k column * M.entry source l := by
  rw [eliminateColumn, entry_mapRows _ _ _ hk]
  by_cases hks : k = source
  · rw [if_pos hks, if_pos hks, entry]
  · rw [if_neg hks, if_neg hks, Row.entry_set _ (by
      rw [Row.length_eliminate, M.length_row_of_lt hk]; exact hc)]
    by_cases hlc : l = column
    · rw [if_pos hlc, if_pos hlc]
    · rw [if_neg hlc, if_neg hlc, Row.entry_eliminate _ _ _ _
        (by rw [M.length_row_of_lt hk]; exact hl)
        (by rw [M.length_row_of_lt hk, M.length_row_of_lt hs])]
      rfl

/-! ## Checked operations -/

omit [Scalar α] in
theorem requireRow_eq_ok_iff (M : DenseMatrix α n) (i : Nat) :
    M.requireRow i = .ok () ↔ i < M.height := by
  unfold requireRow
  split <;> simp_all

/-- An entry is read exactly where there is one. -/
theorem read_eq_ok_iff (M : DenseMatrix α n) (i j : Nat) (x : α) :
    M.read i j = .ok x ↔ (i < M.height ∧ j < n) ∧ x = M.entry i j := by
  unfold read requirePlace
  split
  · rename_i h
    simp [h, bind, Except.bind, pure, Except.pure, eq_comm]
  · rename_i h
    simp [h, bind, Except.bind]

omit [Scalar α] in
/-- An entry is put exactly where there is one. -/
theorem set_eq_ok_iff (M N : DenseMatrix α n) (i j : Nat) (x : α) :
    M.set i j x = .ok N ↔ (i < M.height ∧ j < n) ∧ N = M.updateEntry i j x := by
  unfold set requirePlace
  split
  · rename_i h
    simp [h, bind, Except.bind, pure, Except.pure, eq_comm]
  · rename_i h
    simp [h, bind, Except.bind]

/-- A column is cleared when the factors, which are its other entries, are finite. -/
theorem clearColumn_eq_ok_iff (M N : DenseMatrix α n) (source column : Nat) :
    M.clearColumn source column = .ok N ↔
      (∀ i < M.height, i = source ∨ Scalar.isFinite (M.entry i column)) ∧
        N = M.eliminateColumn source column := by
  unfold clearColumn
  split
  · rename_i h
    simp only [Except.ok.injEq, eq_comm (a := M.eliminateColumn source column)]
    exact ⟨fun hN => ⟨h, hN⟩, fun hN => hN.2⟩
  · rename_i h
    simp only [reduceCtorEq, false_iff]
    exact fun hN => h hN.1

/-- A pivot is possible on an existing entry that exceeds the tolerance, when its reciprocal and
the other entries of its column are finite. -/
theorem pivot_eq_ok_iff (M N : DenseMatrix α n) (tolerance : α) (row column : Nat) :
    M.pivot tolerance row column = .ok N ↔
      (row < M.height ∧ column < n) ∧
      Scalar.isSignificant tolerance (M.entry row column) ∧
      Scalar.isFinite (1 / M.entry row column) ∧
      (∀ i < M.height, i = row ∨ Scalar.isFinite (M.entry i column)) ∧
      N = ((M.multiplyRow row (1 / M.entry row column)).updateEntry row column 1).eliminateColumn
        row column := by
  unfold pivot
  by_cases hplace : row < M.height ∧ column < n
  case neg =>
    simp [read, requirePlace, hplace, bind, Except.bind]
  by_cases hsig : Scalar.isSignificant tolerance (M.entry row column)
  case neg =>
    simp [read, requirePlace, hplace, hsig, bind, Except.bind, pure, Except.pure, throw, throwThe,
      MonadExceptOf.throw]
  by_cases hfin : Scalar.isFinite (1 / M.entry row column)
  case neg =>
    simp [read, requirePlace, hplace, hsig, hfin, scaleRow, bind, Except.bind, pure, Except.pure,
      throw, throwThe, MonadExceptOf.throw]
  -- The entries of the column outside the row are those of the given matrix.
  have hfactors : (∀ i < M.height, i = row ∨ Scalar.isFinite
        (((M.multiplyRow row (1 / M.entry row column)).updateEntry row column 1).entry i column)) ↔
      ∀ i < M.height, i = row ∨ Scalar.isFinite (M.entry i column) := by
    refine forall_congr' fun i => forall_congr' fun hi => ?_
    by_cases hir : i = row
    · simp [hir]
    · rw [entry_updateEntry _ hplace.2 _ (by simpa using hi), if_neg (fun h => hir h.1),
        entry_multiplyRow _ _ _ hi hplace.2, if_neg hir]
  have hclear := clearColumn_eq_ok_iff
    ((M.multiplyRow row (1 / M.entry row column)).updateEntry row column 1) N row column
  rw [height_updateEntry, height_multiplyRow, hfactors] at hclear
  simp [read, requirePlace, hplace, hsig, hfin, scaleRow, requireRow, set, bind, Except.bind, pure,
    Except.pure, hclear]

end DenseMatrix

end LinProg
