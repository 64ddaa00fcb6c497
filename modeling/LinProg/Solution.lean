import LinProg.Phase

/-!
# Solutions

The outcome of a solve that was not given up. The tableaux are kept for diagnosis: for an
infeasible model the first and the last of phase one, and otherwise those of phase two. -/

namespace LinProg

/-- What a solve found out about a model. -/
inductive Verdict (α : Type) where
  /-- A best point exists. Its values are those of all columns of the standard form, the model's
  variables first; the objective value is that of the model's own objective. -/
  | optimal (values : List α) (objectiveValue : α)
  /-- No point satisfies the constraints. -/
  | infeasible
  /-- Feasible points have objective values without limit. -/
  | unbounded

/-- The outcome of a solve. -/
structure Solution (α : Type) where
  /-- What was found out. -/
  verdict : Verdict α
  /-- The variables of the model at the time of the solve. -/
  vars : List Variable
  /-- The first tableau of the last phase. -/
  initialTableau : Tableau α
  /-- The last tableau. -/
  finalTableau : Tableau α
  /-- The first tableau of phase one, if there was a phase one. -/
  phaseOneTableau : Option (Tableau α)
  /-- The pivots of all phases. -/
  iterations : Nat

namespace Solution

variable {α : Type}

/-- Whether a best point was found. -/
def isOptimal (s : Solution α) : Bool :=
  s.verdict matches .optimal ..

/-- Whether the model has a feasible point. -/
def isFeasible (s : Solution α) : Bool :=
  !s.verdict matches .infeasible

/-- Whether the objective values of feasible points have a limit. -/
def isBounded (s : Solution α) : Bool :=
  !s.verdict matches .unbounded

/-- The value of the model's objective at the point found. -/
def objectiveValue (s : Solution α) : Option α :=
  match s.verdict with
  | .optimal _ value => some value
  | _ => none

/-- As many values as a model has variables, in index order. There are none unless the solution is
optimal and has that many. -/
def assignment (s : Solution α) (M : Model α) : Option (List α) :=
  match s.verdict with
  | .optimal values _ =>
    if M.vars.length ≤ values.length then some (values.take M.vars.length) else none
  | _ => none

/-- The value at the index of a variable. -/
def value (s : Solution α) (v : Variable) : Option α :=
  match s.verdict with
  | .optimal values _ => values[v.index]?
  | _ => none

end Solution

end LinProg
