import LinProg.Tableau

/-!
# Standard form

The equivalent of a model that the simplex method works on: a maximization, bounds that are not
negative, and equalities only. Each inequality becomes an equality through a column of its own, a
slack where the expression is at most the bound and a surplus where it is at least the bound. -/

namespace LinProg

variable {α : Type} [Scalar α]

/-- The constraint with a bound that is not negative. -/
def Constraint.withPositiveBound (c : Constraint α) : Constraint α :=
  if c.bound < 0 then c.invert else c

/-- The objective as something to make as large as possible. -/
def Objective.asMaximization (o : Objective α) : Objective α :=
  match o.direction with
  | .maximize => o
  | .minimize => o.invert

/-- Give each chosen constraint a new variable with the given coefficient, which makes it an
equality. The new variables are numbered from `next` on and named by a letter and the position of
the constraint, from `i` on. The result holds the new variables, all constraints, and for each
constraint the column it got. -/
def attachColumns (coefficient : α) (letter : String) :
    (next i : Nat) → List (Constraint α × Bool) →
      List Variable × List (Constraint α) × List (Option Nat)
  | _, _, [] => ([], [], [])
  | next, i, (c, false) :: rest =>
    let (added, constraints, columns) := attachColumns coefficient letter next (i + 1) rest
    (added, c :: constraints, none :: columns)
  | next, i, (c, true) :: rest =>
    let v : Variable := ⟨next, letter ++ toString i⟩
    let (added, constraints, columns) :=
      attachColumns coefficient letter (next + 1) (i + 1) rest
    (v :: added, c.absorb coefficient v :: constraints, some next :: columns)

/-- Give each chosen constraint of a model a new variable, and tell which constraint got which
column. -/
def Model.attachColumns (M : Model α) (coefficient : α) (letter : String) (chosen : List Bool) :
    Model α × List (Option Nat) :=
  let (added, constraints, columns) :=
    LinProg.attachColumns coefficient letter M.vars.length 0 (M.constraints.zip chosen)
  ({ M with vars := M.vars ++ added, constraints }, columns)

/-- For each constraint, whether it has the relation. -/
def Model.withRelation (M : Model α) (relation : Relation) : List Bool :=
  M.constraints.map (·.relation = relation)

/-- A model in standard form. -/
structure StandardForm (α : Type) where
  /-- The equalities to satisfy and the expression to make as large as possible. -/
  model : Model α
  /-- The slack column of each constraint that has one. -/
  slacks : List (Option Nat)

namespace StandardForm

/-- The standard form of a model. -/
def ofModel (M : Model α) : StandardForm α :=
  let simplified := M.simplify
  let signed : Model α :=
    { simplified with
      constraints := simplified.constraints.map Constraint.withPositiveBound
      objective := simplified.objective.map Objective.asMaximization }
  -- Slacks come first, then surpluses. A constraint with a slack is an equality by then, so it gets
  -- no second column.
  let (slacked, slacks) := signed.attachColumns 1 "s" (signed.withRelation .atMost)
  let (model, _) := slacked.attachColumns (-1) "e" (slacked.withRelation .atLeast)
  ⟨model, slacks⟩

/-- A constraint without a slack has no column to start the basis with. -/
def needsPhaseOne (form : StandardForm α) : Bool :=
  form.slacks.any (·.isNone)

end StandardForm

/-- The objective row of the first tableau of a model: the negated coefficients of the objective,
and zero for its value. -/
def Model.objectiveRow (M : Model α) : Except (Fault α) (List α) := do
  let coefficients ← match M.objective with
    | some objective => objective.expression.coefficients M.vars.length
    | none => .ok (List.replicate M.vars.length 0)
  return coefficients.map (-·) ++ [0]

/-- The row of a constraint in the first tableau of a model: its coefficients and its bound. -/
def Model.constraintRow (M : Model α) (c : Constraint α) : Except (Fault α) (List α) := do
  let coefficients ← c.expression.coefficients M.vars.length
  return coefficients ++ [c.bound]

/-- The tableau of a model of equalities, before any pivot. -/
def Model.tableau (M : Model α) (tolerance : α) : Except (Fault α) (Tableau α) := do
  let objective ← M.objectiveRow
  let constraints ← M.constraints.mapM M.constraintRow
  let matrix ← DenseMatrix.ofRows (objective :: constraints)
  Tableau.ofMatrix M matrix tolerance

end LinProg
