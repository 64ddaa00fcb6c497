import LinProg.Event
import LinProg.StandardForm

/-!
# Phase one

A start for the simplex method where constraints have no slack. Each of them gets an artificial
variable, which gives it a basic column, and the first phase makes the total of the artificial
variables as small as possible. When some of it is left, no point satisfies the constraints.
Otherwise artificial variables that are still basic, at zero, are driven out of the basis, the
artificial columns are dropped, and the objective of the standard form is restored. -/

namespace LinProg

variable {α : Type} [Scalar α]

/-- An artificial variable: its column, and the row in which it starts as the basic one. -/
structure Artificial where
  /-- The row of the constraint. -/
  row : Nat
  /-- The column of the variable. -/
  column : Nat
deriving DecidableEq

/-- The program of phase one. -/
structure PhaseOneProgram (α : Type) where
  /-- The standard form with artificial variables, and the negated total of these to maximize. -/
  model : Model α
  /-- The artificial variables, from the first row on. -/
  artificials : List Artificial

/-- The program of phase one for a standard form: each constraint without a slack gets an
artificial variable. -/
def StandardForm.phaseOneProgram (form : StandardForm α) : Except Error (PhaseOneProgram α) := do
  let (model, columns) := form.model.attachColumns 1 "R" (form.slacks.map (·.isNone))
  let artificials := columns.zipIdx.filterMap fun (column?, i) =>
    column?.map fun column => Artificial.mk (i + 1) column
  let total := (model.vars.drop form.model.vars.length).foldl
    (fun sum v => sum.subtract (.ofVariable v)) Expression.empty
  let model ← model.maximize total
  return ⟨model, artificials⟩

/-- The first tableau of phase one, in which the artificial columns are basic. -/
def PhaseOneProgram.tableau (program : PhaseOneProgram α) (tolerance : α) :
    Except (Fault α) (Tableau α) := do
  let T ← program.model.tableau tolerance
  program.artificials.foldlM (fun T artificial => T.priceOut artificial.row artificial.column) T

/-- The values of the artificial variables at the basis of a tableau. -/
def Tableau.artificialValues (T : Tableau α) (artificials : List Artificial) :
    Except (Fault α) (List α) :=
  let values := T.assignment
  artificials.mapM fun artificial =>
    match values[artificial.column]? with
    | some value => .ok value
    | none => .error .outOfRange

/-- The first artificial column; without any, the number of columns. -/
def Tableau.firstArtificial (T : Tableau α) (artificials : List Artificial) : Nat :=
  ((artificials.map (·.column)).min?).getD T.columns

/-- Drive an artificial column out of the basis. The first other column with an entry in the row
takes its place; a row without one is redundant, and is cleared. -/
def Tableau.driveOut (T : Tableau α) (tolerance : α) (firstArtificial row column : Nat) :
    Recorded α (Tableau α) := do
  match (List.range firstArtificial).find? fun j =>
      Scalar.isSignificant tolerance (T.entry row j) with
  | some replacement =>
    Recorded.record (.drivenOut column row replacement)
    Recorded.guarded (T.pivot row replacement)
  | none =>
    Recorded.record (.redundantRow row)
    Recorded.guarded (T.clearRow row)

/-- Drive all artificial columns out of the basis, from the first row on. Which ones there are is
read off once, before the first is driven out. -/
def Tableau.expunge (T : Tableau α) (tolerance : α) (artificials : List Artificial) :
    Recorded α (Tableau α) :=
  -- The artificial columns are the last ones, so one comparison tells them apart.
  let firstArtificial := T.firstArtificial artificials
  (T.constraintRows.zip T.basis).foldlM (fun T (row, column?) =>
    match column? with
    | some column =>
      if firstArtificial ≤ column then T.driveOut tolerance firstArtificial row column
      else pure T
    | none => pure T) T

/-- The tableau of phase two: the artificial columns dropped, and the objective of the model
expressed by the columns that are not basic. -/
def Tableau.restore (T : Tableau α) (tolerance : α) (model : Model α)
    (artificials : List Artificial) : Except (Fault α) (Tableau α) := do
  let remaining ← T.matrix.removeColumns (artificials.map (·.column))
  let objective ← model.objectiveRow
  let matrix ← remaining.replaceRow 0 objective
  let restored ← Tableau.ofMatrix model matrix tolerance
  (T.constraintRows.zip T.basis).foldlM (fun R (row, column?) =>
    match column? with
    | some column => R.priceOut row column
    | none => pure R) restored

/-- What phase one comes to. -/
inductive PhaseOneResult (α : Type) where
  /-- There is a feasible point: the first tableau of phase one, the tableau to start phase two
  from, and the pivots of phase one. -/
  | feasible (initial restored : Tableau α) (iterations : Nat)
  /-- There is none: the first and the last tableau, and the pivots. -/
  | infeasible (initial last : Tableau α) (iterations : Nat)

/-- Run phase one on a standard form. -/
def StandardForm.phaseOne (form : StandardForm α) (settings : Settings α) :
    Recorded α (PhaseOneResult α) := do
  let program ← Recorded.checked form.phaseOneProgram
  Recorded.record (.phaseOneStarted program.artificials.length)
  let initial ← Recorded.guarded (program.tableau settings.tolerance)
  let phase := Phase.run settings initial
  Recorded.record (.phase 1 phase)
  match phase.ending with
  | .failed failure => ⟨[], .error failure⟩
  | .exhausted => Recorded.fail (.iterationLimit 1 phase.iterations)
  | .unbounded _ => Recorded.fail (.numerical .phaseOneUnbounded)
  | .optimal =>
    let levels ← Recorded.guarded (phase.last.artificialValues program.artificials)
    -- Each value is compared, not the total: small values that add up are no sign of infeasibility.
    if levels.any (settings.tolerance < ·) then
      Recorded.record (.artificialTotal (Scalar.sum levels))
      return .infeasible initial phase.last phase.iterations
    let expunged ← phase.last.expunge settings.tolerance program.artificials
    let restored ← Recorded.guarded
      (expunged.restore settings.tolerance form.model program.artificials)
    return .feasible initial restored phase.iterations

end LinProg
