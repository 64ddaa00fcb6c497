import LinProg.Row

/-!
# Dense matrices

Matrices stored row by row, with the number of columns in the type. Each change of entries exists
twice: as a total function on matrices, which reads zeros beyond the edge and changes nothing
there, and as an operation that first checks its indices and factors and reports a `Fault`. The
checked operation is the total function behind its check, so a law is proved once, of the total
function.

The total changes are all instances of `mapRows`, whose entries `row_mapRows` gives. -/

namespace LinProg

/-- A matrix with rows of `n` scalars each. -/
structure DenseMatrix (α : Type) (n : Nat) where
  /-- The rows, from the top. -/
  rows : List (List α)
  /-- Every row has one entry for each column. -/
  length_row : ∀ row ∈ rows, row.length = n

namespace DenseMatrix

variable {α : Type} {n : Nat}

/-- The number of columns that a list of rows shows: the length of the first, none without rows. -/
def widthOf (rows : List (List α)) : Nat :=
  (rows.head?.map List.length).getD 0

/-- The matrix with the given rows, which must all have the same length. -/
def ofRows (rows : List (List α)) : Except (Fault α) (DenseMatrix α (widthOf rows)) :=
  if h : ∀ row ∈ rows, row.length = widthOf rows then .ok ⟨rows, h⟩ else .error .raggedRows

/-- The same matrix under another expression for its number of columns. -/
def castWidth {k : Nat} (M : DenseMatrix α n) (h : n = k) : DenseMatrix α k :=
  ⟨M.rows, fun row hrow => (M.length_row row hrow).trans h⟩

/-- The number of rows. -/
def height (M : DenseMatrix α n) : Nat :=
  M.rows.length

/-- Two matrices have the same shape, and their entries compare equal, place by place. -/
def agrees [BEq α] {k : Nat} (M : DenseMatrix α n) (N : DenseMatrix α k) : Bool :=
  M.rows == N.rows

/-- The row at an index, empty beyond the last row. -/
def row (M : DenseMatrix α n) (i : Nat) : List α :=
  (M.rows[i]?).getD []

/-- Replace every row by a function of its index and its entries that keeps the length. -/
def mapRows (M : DenseMatrix α n) (f : Nat → List α → List α)
    (hf : ∀ i row, (f i row).length = row.length) : DenseMatrix α n where
  rows := M.rows.mapIdx f
  length_row row hrow := by
    obtain ⟨i, hi, rfl⟩ := List.mem_mapIdx.1 hrow
    rw [hf]
    exact M.length_row _ (List.getElem_mem _)

@[simp] theorem height_mapRows (M : DenseMatrix α n) (f : Nat → List α → List α)
    (hf : ∀ i row, (f i row).length = row.length) : (M.mapRows f hf).height = M.height := by
  simp [height, mapRows]

/-- A row of the result is the function of the row, as far as there are rows. -/
theorem row_mapRows (M : DenseMatrix α n) (f : Nat → List α → List α)
    (hf : ∀ i row, (f i row).length = row.length) (i : Nat) :
    (M.mapRows f hf).row i = if i < M.height then f i (M.row i) else [] := by
  simp only [row, mapRows, List.getElem?_mapIdx, height]
  by_cases hi : i < M.rows.length
  · simp [hi]
  · simp [hi]

theorem length_row_of_lt (M : DenseMatrix α n) {i : Nat} (hi : i < M.height) :
    (M.row i).length = n := by
  simp only [row, height] at hi ⊢
  rw [List.getElem?_eq_getElem hi]
  exact M.length_row _ (List.getElem_mem _)

/-! ## Total changes -/

/-- Put a scalar at a place. -/
def updateEntry (M : DenseMatrix α n) (i j : Nat) (x : α) : DenseMatrix α n :=
  M.mapRows (fun k row => if k = i then row.set j x else row) fun k row => by split <;> simp

/-- Put the same scalar at every place of a row. -/
def flattenRow (M : DenseMatrix α n) (i : Nat) (x : α) : DenseMatrix α n :=
  M.mapRows (fun k row => if k = i then row.map fun _ => x else row) fun k row => by
    split <;> simp

/-- Put other scalars into a row, one for each column. -/
def overwriteRow (M : DenseMatrix α n) (i : Nat) (entries : List α) (h : entries.length = n) :
    DenseMatrix α n where
  rows := M.rows.set i entries
  length_row row hrow := by
    rcases List.mem_or_eq_of_mem_set hrow with hmem | rfl
    · exact M.length_row row hmem
    · exact h

/-- The columns that are left when some are dropped, in order. -/
def keptColumns (n : Nat) (dropped : List Nat) : List Nat :=
  (List.range n).filter fun j => !dropped.contains j

section Arithmetic

variable [Scalar α]

/-- The entry at a place, zero beyond the edge. -/
def entry (M : DenseMatrix α n) (i j : Nat) : α :=
  Row.entry (M.row i) j

/-- Multiply a row by a factor. -/
def multiplyRow (M : DenseMatrix α n) (i : Nat) (factor : α) : DenseMatrix α n :=
  M.mapRows (fun k row => if k = i then row.map (· * factor) else row) fun k row => by
    split <;> simp

/-- Subtract a multiple of the row `source` from the row `target`; a row subtracted from itself
stays as it is. -/
def eliminateRow (M : DenseMatrix α n) (target source : Nat) (factor : α) : DenseMatrix α n :=
  M.mapRows (fun k row =>
    if k = target ∧ k ≠ source then Row.eliminate factor row (M.row source) else row)
    fun k row => by split <;> simp

/-- Subtract from every other row as many times the row `source` as its entry in `column` says,
and make that entry zero. -/
def eliminateColumn (M : DenseMatrix α n) (source column : Nat) : DenseMatrix α n :=
  M.mapRows (fun k row =>
    if k = source then row
    else (Row.eliminate (Row.entry row column) row (M.row source)).set column 0)
    fun k row => by split <;> simp

/-- Drop columns; the others keep their order. -/
def dropColumns (M : DenseMatrix α n) (dropped : List Nat) :
    DenseMatrix α (keptColumns n dropped).length where
  rows := M.rows.map fun row => (keptColumns n dropped).map (Row.entry row)
  length_row row hrow := by
    obtain ⟨r, _, rfl⟩ := List.mem_map.1 hrow
    simp

end Arithmetic

/-! ## Checked operations -/

/-- Fail unless the row exists. -/
def requireRow (M : DenseMatrix α n) (i : Nat) : Except (Fault α) Unit :=
  if i < M.height then .ok () else .error .outOfRange

/-- Fail unless the place exists. -/
def requirePlace (M : DenseMatrix α n) (i j : Nat) : Except (Fault α) Unit :=
  if i < M.height ∧ j < n then .ok () else .error .outOfRange

/-- The row at an index. -/
def readRow (M : DenseMatrix α n) (i : Nat) : Except (Fault α) (List α) := do
  M.requireRow i
  return M.row i

/-- Put a scalar at a place. -/
def set (M : DenseMatrix α n) (i j : Nat) (x : α) : Except (Fault α) (DenseMatrix α n) := do
  M.requirePlace i j
  return M.updateEntry i j x

/-- Put the same scalar at every place of a row. -/
def fillRow (M : DenseMatrix α n) (i : Nat) (x : α) : Except (Fault α) (DenseMatrix α n) := do
  M.requireRow i
  return M.flattenRow i x

/-- Put other scalars into a row, one for each column. -/
def replaceRow (M : DenseMatrix α n) (i : Nat) (entries : List α) :
    Except (Fault α) (DenseMatrix α n) := do
  M.requireRow i
  if h : entries.length = n then return M.overwriteRow i entries h
  else throw .lengthMismatch

section Arithmetic

variable [Scalar α]

/-- The entry at a place. -/
def read (M : DenseMatrix α n) (i j : Nat) : Except (Fault α) α := do
  M.requirePlace i j
  return M.entry i j

/-- Multiply a row by a finite factor. -/
def scaleRow (M : DenseMatrix α n) (i : Nat) (factor : α) :
    Except (Fault α) (DenseMatrix α n) := do
  unless Scalar.isFinite factor do throw (.unscalableRow i factor)
  M.requireRow i
  return M.multiplyRow i factor

/-- Subtract a finite multiple of the row `source` from the row `target`. Nothing is to be done,
and the rows need not exist, when the factor is zero or the two rows are one. -/
def rowOperation (M : DenseMatrix α n) (target source : Nat) (factor : α) :
    Except (Fault α) (DenseMatrix α n) := do
  unless Scalar.isFinite factor do throw .nonFiniteFactor
  -- Nothing is read in these two cases, so nothing can be out of range.
  if factor == 0 || target == source then return M
  M.requireRow source
  M.requireRow target
  return M.eliminateRow target source factor

/-- Clear a column by subtracting multiples of the row `source` from all other rows. Their entries
in the column, which are the factors, must be finite. -/
def clearColumn (M : DenseMatrix α n) (source column : Nat) :
    Except (Fault α) (DenseMatrix α n) :=
  if ∀ i < M.height, i = source ∨ Scalar.isFinite (M.entry i column) then
    .ok (M.eliminateColumn source column)
  else .error .nonFiniteFactor

/-- Make `column` the unit vector of `row`: divide the row by its entry there, and clear the rest
of the column. The entry must exceed `tolerance` in magnitude. -/
def pivot (M : DenseMatrix α n) (tolerance : α) (row column : Nat) :
    Except (Fault α) (DenseMatrix α n) := do
  let entry ← M.read row column
  unless Scalar.isSignificant tolerance entry do throw (.zeroPivot entry row column)
  let scaled ← M.scaleRow row (1 / entry)
  -- The product of a number and its reciprocal may miss one by a rounding.
  let normalized ← scaled.set row column 1
  normalized.clearColumn row column

/-- Drop existing columns; the others keep their order. -/
def removeColumns (M : DenseMatrix α n) (dropped : List Nat) :
    Except (Fault α) (DenseMatrix α (keptColumns n dropped).length) :=
  if ∀ j ∈ dropped, j < n then .ok (M.dropColumns dropped) else .error .outOfRange

end Arithmetic

end DenseMatrix

end LinProg
