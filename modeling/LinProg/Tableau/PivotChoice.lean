import LinProg.Settings
import LinProg.Tableau.Basis

/-!
# The choice of a pivot

Which column enters the basis and which row leaves it, under either pivot rule. -/

namespace LinProg.Tableau

variable {α : Type} [Scalar α]

/-- The key of the least value, the first of several. A value takes over when the best so far is
not at most as large, so one that is not a number takes over and is itself taken over. -/
def firstLeast (candidates : List (Nat × α)) : Option Nat :=
  (candidates.foldl (fun (best : Option (Nat × α)) candidate =>
    match best with
    | some (key, least) => if least ≤ candidate.2 then some (key, least) else some candidate
    | none => some candidate) none).map (·.1)

/-- The columns with a reduced cost below zero, with that cost. -/
def improvingColumns (T : Tableau α) : List (Nat × α) :=
  (T.reducedCosts.zipIdx.map fun (cost, column) => (column, cost)).filter fun (_, cost) =>
    cost < -T.tolerance

/-- The column to bring into the basis; none when no column improves the objective. -/
def enteringColumn (T : Tableau α) : PivotRule → Option Nat
  | .dantzig => firstLeast T.improvingColumns
  | .bland => T.improvingColumns.head?.map (·.1)

/-- No constraint row limits how far a column can grow. -/
def isUnbounded (T : Tableau α) (column : Nat) : Bool :=
  T.constraintRows.all fun row => T.entry row column ≤ T.tolerance

/-- Whether a column for which the scan must be possible can grow without limit. -/
def readUnbounded (T : Tableau α) (column : Nat) : Except (Fault α) Bool := do
  T.requireColumn column
  return T.isUnbounded column

/-- The rows with a positive entry in a column, with the ratio of right-hand side and entry. -/
def ratios (T : Tableau α) (column : Nat) : List (Nat × α) :=
  T.constraintRows.filterMap fun row =>
    let entry := T.entry row column
    if T.tolerance < entry then some (row, T.rhs row / entry) else none

/-- The least of the values that are numbers. -/
def leastNumber (values : List α) : Option α :=
  values.foldl (fun least? x =>
    match least? with
    | some least => if x < least then some x else some least
    | none => if x ≤ x then some x else none) none

/-- The row whose key is least, the first of several; a row without a key comes last. -/
def firstLowest (rows : List (Nat × Option Nat)) : Option Nat :=
  (rows.foldl (fun (best : Option (Nat × Option Nat)) row =>
    match best, row.2 with
    | some (_, none), some _ => some row
    | some (i, some lowest), some key => if key < lowest then some row else some (i, some lowest)
    | some best, none => some best
    | none, _ => some row) none).map (·.1)

/-- The row to leave the basis for a column, by the minimum ratio test; none when no row has a
positive entry. Bland's rule takes all rows whose ratio is within the tolerance of the least. -/
def leavingRow (T : Tableau α) (column : Nat) : PivotRule → Option Nat
  | .dantzig => firstLeast (T.ratios column)
  | .bland =>
    let candidates := T.ratios column
    match leastNumber (candidates.map (·.2)) with
    | none => none
    | some least =>
      -- The basis is scanned once, for the ties only; a tied row without a basic column loses.
      let basis := T.basis
      firstLowest ((candidates.filter fun (_, ratio) => ratio ≤ least + T.tolerance).map
        fun (row, _) => (row, (basis[row - 1]?).join))

/-- The row to leave the basis for a column for which the scan must be possible. -/
def readLeavingRow (T : Tableau α) (column : Nat) (rule : PivotRule) :
    Except (Fault α) (Option Nat) := do
  T.requireColumn column
  return T.leavingRow column rule

end LinProg.Tableau
