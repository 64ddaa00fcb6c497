import LinProg.Constraint
import LinProg.Objective

/-!
# Models

A linear program over non-negative variables: a name, variables, constraints and, once one is set,
an objective. Variables and constraints are numbered from zero in the order in which they are
added, and nothing is ever removed.

An expression belongs to a model when the model holds each of its variables, by index and name,
and all its numbers are finite. Constraints and objectives with other expressions are rejected,
and then the model is as it was.

An operation that can be refused is an `Update`, which leaves a state in either case. -/

namespace LinProg

/-- A change of a state that can be refused. What is changed before a refusal stays changed. -/
abbrev Update (σ β : Type) :=
  ExceptT Error (StateM σ) β

namespace Update

variable {σ β : Type}

/-- The answer to an update, and the state that it leaves. -/
def on (update : Update σ β) (s : σ) : Except Error β × σ :=
  (ExceptT.run update).run s

/-- The state that an update leaves, unless it is refused. -/
def result (update : Update σ β) (s : σ) : Except Error σ :=
  (update.on s).1.map fun _ => (update.on s).2

end Update

/-- A linear program over non-negative variables. -/
structure Model (α : Type) where
  /-- The name that texts show. -/
  name : String
  /-- The variables, by index. -/
  vars : List Variable
  /-- The constraints, by index. -/
  constraints : List (Constraint α)
  /-- What to optimize, if that is set. -/
  objective : Option (Objective α)
deriving BEq

namespace Model

variable {α : Type}

/-- A model without variables and constraints. -/
def empty (name : String) : Model α :=
  ⟨name, [], [], none⟩

/-- The variable that `addVariable` adds. -/
def nextVariable (M : Model α) (name : String) : Variable :=
  ⟨M.vars.length, name⟩

/-- Add a variable with the next free index. -/
def addVariable (M : Model α) (name : String) : Model α :=
  { M with vars := M.vars ++ [M.nextVariable name] }

variable [Scalar α]

/-- What is wrong with a term: its variable is not the model's own, or its coefficient is not
finite. -/
def termError? (M : Model α) (t : Term α) : Option Error :=
  if M.vars[t.var.index]? ≠ some t.var then some (.unknownVariable t.var)
  else if Scalar.isFinite t.coefficient then none
  else some (.nonFinite (.coefficient t.var))

/-- What is wrong with an expression: the first term that is wrong, or else the constant. -/
def expressionError? (M : Model α) (e : Expression α) : Option Error :=
  match e.terms.findSome? M.termError? with
  | some error => some error
  | none => if Scalar.isFinite e.constant then none else some (.nonFinite .constantTerm)

/-- Fail unless the expression belongs to the model. -/
def requireExpression (M : Model α) (e : Expression α) : Except Error Unit :=
  match M.expressionError? e with
  | some error => .error error
  | none => .ok ()

/-- The constraint that `addConstraint` adds, with the constant of the expression moved to the
bound. -/
def nextConstraint (M : Model α) (e : Expression α) (relation : Relation) (bound : α) :
    Except Error (Constraint α) := do
  M.requireExpression e
  if e.isConstant then throw (.emptyConstraint M.constraints.length)
  unless Scalar.isFinite bound do throw (.nonFinite (.bound M.constraints.length))
  return ({ expression := e, relation, bound, index := M.constraints.length } :
    Constraint α).simplify

/-- Add a constraint with the next free index. -/
def storeConstraint (e : Expression α) (relation : Relation) (bound : α) :
    Update (Model α) Unit := do
  let constraint ← (← get).nextConstraint e relation bound
  modify fun M => { M with constraints := M.constraints ++ [constraint] }

/-- The model with a further constraint. -/
def addConstraint (M : Model α) (e : Expression α) (relation : Relation) (bound : α) :
    Except Error (Model α) :=
  (storeConstraint e relation bound).result M

/-- Set the objective. -/
def storeObjective (direction : Direction) (e : Expression α) : Update (Model α) Unit := do
  (← get).requireExpression e
  modify fun M => { M with objective := some ⟨e, direction⟩ }

/-- The model with another objective. -/
def optimize (M : Model α) (direction : Direction) (e : Expression α) : Except Error (Model α) :=
  (storeObjective direction e).result M

/-- Set the objective to an expression to make as large as possible. -/
def maximize (M : Model α) (e : Expression α) : Except Error (Model α) :=
  M.optimize .maximize e

/-- Set the objective to an expression to make as small as possible. -/
def minimize (M : Model α) (e : Expression α) : Except Error (Model α) :=
  M.optimize .minimize e

/-- Move the constants of all constraints to their bounds. -/
def simplify (M : Model α) : Model α :=
  { M with constraints := M.constraints.map Constraint.simplify }

/-- Change the constraint of an index, which must exist. -/
def updateConstraint (M : Model α) (i : Nat) (f : Constraint α → Constraint α) :
    Except (Fault α) (Model α) :=
  if i < M.constraints.length then .ok { M with constraints := M.constraints.modify i f }
  else .error .outOfRange

/-- The constraint of an index, which must exist. -/
def readConstraint (M : Model α) (i : Nat) : Except (Fault α) (Constraint α) :=
  match M.constraints[i]? with
  | some c => .ok c
  | none => .error .outOfRange

/-- Turn the objective around, if there is one. -/
def invertObjective (M : Model α) : Model α :=
  { M with objective := M.objective.map Objective.invert }

/-- Whether the values, one for each variable by index, are non-negative and satisfy every
constraint, up to a tolerance. -/
def isSatisfiedBy (M : Model α) (values : List α) (tolerance : α) : Except (Fault α) Bool :=
  if values.length = M.vars.length ∧ ∀ x ∈ values, -tolerance ≤ x then
    M.constraints.allM (·.isSatisfied values tolerance)
  else .ok false

end Model

end LinProg
