import LinProg.Tableau

/-!
# The basis of a tableau

A tableau does not carry its basis along. The basis is read off the entries: a column is basic in
a constraint row when it is the unit vector of the row and its objective entry is zero, all up to
the tolerance. When several columns are basic in a row the first counts. -/

namespace LinProg.Tableau

variable {α : Type} [Scalar α]

/-- Scan the entries of a column from the constraint row `row` on. The first entry near one, given
in `found` once it was met, is the unit; after that every entry must be zero, and before it too.
An entry that is not a number passes. -/
def scanUnit (tolerance : α) (found : Option Nat) : (row : Nat) → List α → Option Nat
  | _, [] => found
  | row, x :: xs =>
    if found.isNone && Scalar.isNegligible tolerance (x - 1) then
      scanUnit tolerance (some row) (row + 1) xs
    else if Scalar.isSignificant tolerance x then none
    else scanUnit tolerance found (row + 1) xs

/-- The constraint row that a column is the unit vector of. -/
def unitRow (T : Tableau α) (column : Nat) : Option Nat :=
  scanUnit T.tolerance none 1 (T.constraintRows.map (T.entry · column))

/-- The constraint row of a column for which the scan must be possible. -/
def readUnitRow (T : Tableau α) (column : Nat) : Except (Fault α) (Option Nat) := do
  T.requireColumn column
  return T.unitRow column

/-- The row in which a column is basic. -/
def basicRow (T : Tableau α) (column : Nat) : Option Nat :=
  if Scalar.isSignificant T.tolerance (T.entry 0 column) then none else T.unitRow column

/-- The basic column of each constraint row, from the first row on; a row without one has been
cleared. -/
def basis (T : Tableau α) : List (Option Nat) :=
  let basic := (List.range T.columns).filterMap fun column =>
    (T.basicRow column).map fun row => (row, column)
  T.constraintRows.map fun row => (basic.find? (·.1 == row)).map (·.2)

/-- The value of each column at the basis: the right-hand side of its row when it is basic, and
otherwise zero. A right-hand side that is zero within the tolerance counts as zero. -/
def assignment (T : Tableau α) : List α :=
  (T.constraintRows.zip T.basis).foldl (fun values (row, column?) =>
    match column? with
    | some column =>
      let value := T.rhs row
      values.set column (if Scalar.isNegligible T.tolerance value then 0 else value)
    | none => values) (List.replicate T.columns 0)

end LinProg.Tableau
