/-!
# Variables and failures

A decision variable of a linear program, and what can go wrong, by cause. An `Error` is an outcome
that callers are meant to handle: a model that cannot be solved as it stands, or a solve that gave
up. A `Fault` is a call whose precondition does not hold, such as an index beyond the edge of a
matrix. A `Failure` is either of the two.

That a program has no feasible point, or no best one, is no failure but the status of a
solution. -/

namespace LinProg

/-- A decision variable. Its index is its place among the variables of its model, and the column
that it has in every tableau; its name is for the reader, and two variables may share one. -/
structure Variable where
  /-- The place among the variables of a model. -/
  index : Nat
  /-- The name that texts show. -/
  name : String
deriving DecidableEq

/-- A number of a model that has to be finite. -/
inductive Quantity where
  /-- The coefficient of a variable. -/
  | coefficient (v : Variable)
  /-- The constant term of an expression. -/
  | constantTerm
  /-- The bound of the constraint of the given index. -/
  | bound (index : Nat)
deriving DecidableEq

/-- A computation that rounding has led astray. -/
inductive Breakdown where
  /-- Phase one, whose objective cannot exceed zero, found an unbounded column. -/
  | phaseOneUnbounded
  /-- A column that is not unbounded has no row to leave the basis for it. -/
  | noLeavingRow (column : Nat)
deriving DecidableEq

/-- Why a model is rejected or a solve is given up. -/
inductive Error where
  /-- The model has nothing to optimize. -/
  | missingObjective
  /-- The model has no constraint. -/
  | noConstraints
  /-- The constraint that would get this index has no variable with a non-zero coefficient. -/
  | emptyConstraint (index : Nat)
  /-- The variable is not the one that the model holds at its index. -/
  | unknownVariable (v : Variable)
  /-- The quantity is infinite or not a number. -/
  | nonFinite (quantity : Quantity)
  /-- A phase made as many pivots as it may and is not done. -/
  | iterationLimit (phase iterations : Nat)
  /-- A computation came to a state that exact arithmetic rules out. -/
  | numerical (breakdown : Breakdown)
deriving DecidableEq

/-- A precondition that a call does not meet. -/
inductive Fault (α : Type) where
  /-- Rows of a matrix differ in length. -/
  | raggedRows
  /-- A row, a column or a position does not exist. -/
  | outOfRange
  /-- Two vectors that belong together differ in length. -/
  | lengthMismatch
  /-- A row is to be multiplied by a factor that is not finite. -/
  | unscalableRow (row : Nat) (factor : α)
  /-- A multiple of a row is to be subtracted, and the factor is not finite. -/
  | nonFiniteFactor
  /-- The entry to pivot on is zero within the tolerance. -/
  | zeroPivot (entry : α) (row column : Nat)
  /-- A variable does not fit into a dense vector of the given length. -/
  | variableOutside (v : Variable) (length : Nat)
  /-- A dense vector of the given length cannot be addressed. -/
  | oversizedVector (length : Nat)
  /-- A tableau does not have one column for each variable and one for the right-hand sides. -/
  | widthMismatch
  /-- A run found no column to improve, and its last tableau is not optimal. -/
  | notOptimal
deriving DecidableEq

/-- Either an error to handle or a precondition that was not met. -/
inductive Failure (α : Type) where
  /-- An error to handle. -/
  | error (error : Error)
  /-- A precondition that was not met. -/
  | fault (fault : Fault α)
deriving DecidableEq

end LinProg
