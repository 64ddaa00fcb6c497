import LinProg.DenseMatrix
import LinProg.Model

/-!
# Tableaux

The dense simplex tableau. Row 0 is the objective row: the negated reduced costs, with the
objective value in the last column. The rows below hold the constraints, with their right-hand
sides in the last column. The other columns are the variables of the model, by index.

A scan down a column looks at the constraint rows only, so on a tableau without any the column
need not exist. -/

namespace LinProg

/-- A simplex tableau, together with the model whose variables are its columns and the tolerance
within which its entries are taken for zero. -/
structure Tableau (α : Type) where
  /-- The model whose variables are the columns. -/
  model : Model α
  /-- Magnitudes up to this one are taken for zero. -/
  tolerance : α
  /-- The objective row and the constraint rows, with the right-hand sides in the last column. -/
  matrix : DenseMatrix α (model.vars.length + 1)

namespace Tableau

variable {α : Type}

/-- The tableau of a matrix, which must have a column for each variable of the model and one for
the right-hand sides. -/
def ofMatrix {n : Nat} (model : Model α) (matrix : DenseMatrix α n) (tolerance : α) :
    Except (Fault α) (Tableau α) :=
  if h : n = model.vars.length + 1 then .ok ⟨model, tolerance, matrix.castWidth h⟩
  else .error .widthMismatch

/-- The number of variable columns; as an index, the column of the right-hand sides. -/
def columns (T : Tableau α) : Nat :=
  T.model.vars.length

/-- The indices of the constraint rows. -/
def constraintRows (T : Tableau α) : List Nat :=
  List.range' 1 (T.matrix.height - 1)

/-- Fail unless a scan down the column is possible. -/
def requireColumn (T : Tableau α) (column : Nat) : Except (Fault α) Unit :=
  if column ≤ T.columns ∨ T.constraintRows = [] then .ok () else .error .outOfRange

/-- Make every entry of a row zero. The row carries no information. -/
def clearRow [Scalar α] (T : Tableau α) (row : Nat) : Except (Fault α) (Tableau α) := do
  let matrix ← T.matrix.fillRow row 0
  return { T with matrix }

variable [Scalar α]

/-- The entry at a place. -/
def entry (T : Tableau α) (row column : Nat) : α :=
  T.matrix.entry row column

/-- The right-hand side of a row. -/
def rhs (T : Tableau α) (row : Nat) : α :=
  T.entry row T.columns

/-- The right-hand side of a row that must exist. -/
def readRhs (T : Tableau α) (row : Nat) : Except (Fault α) α :=
  T.matrix.read row T.columns

/-- The value of the objective at the current basis. Larger is better in every tableau. -/
def objectiveValue (T : Tableau α) : α :=
  T.rhs 0

/-- The entries of the objective row, by column. -/
def reducedCosts (T : Tableau α) : List α :=
  (T.matrix.row 0).take T.columns

/-- No column improves the objective. -/
def isOptimal (T : Tableau α) : Bool :=
  T.reducedCosts.all fun cost => -T.tolerance ≤ cost

/-- Make a column basic in a row. -/
def pivot (T : Tableau α) (row column : Nat) : Except (Fault α) (Tableau α) := do
  let matrix ← T.matrix.pivot T.tolerance row column
  return { T with matrix }

/-- Subtract a row from the objective row as many times as the objective entry of a column says,
and make that entry zero. -/
def priceOut (T : Tableau α) (row column : Nat) : Except (Fault α) (Tableau α) := do
  let factor ← T.matrix.read 0 column
  let reduced ← T.matrix.rowOperation 0 row factor
  let matrix ← reduced.set 0 column 0
  return { T with matrix }

end Tableau

end LinProg
