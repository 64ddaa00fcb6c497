import LinProg.Expression

/-!
# Constraints

A linear expression, a relation and a bound. -/

namespace LinProg

/-- How an expression is to compare with a bound. -/
inductive Relation where
  /-- It does not exceed the bound. -/
  | atMost
  /-- It is not less than the bound. -/
  | atLeast
  /-- It equals the bound. -/
  | equal
deriving DecidableEq

/-- The relation between the two sides once both are negated. -/
def Relation.inverted : Relation → Relation
  | atMost => atLeast
  | atLeast => atMost
  | equal => equal

/-- A condition on the variables of a model. Its index is its place among the constraints of the
model; it has the row `index + 1` in every tableau, below the objective. -/
structure Constraint (α : Type) where
  /-- The left-hand side. -/
  expression : Expression α
  /-- How the two sides compare. -/
  relation : Relation
  /-- The right-hand side. -/
  bound : α
  /-- The place among the constraints of the model. -/
  index : Nat
deriving BEq

namespace Constraint

variable {α : Type} [Scalar α]

/-- Move the constant of the expression to the bound. -/
def simplify (c : Constraint α) : Constraint α :=
  { c with expression := c.expression.dropConstant, bound := c.bound - c.expression.constant }

/-- Negate both sides and turn the relation around. -/
def invert (c : Constraint α) : Constraint α :=
  { c with expression := c.expression.negate, relation := c.relation.inverted, bound := -c.bound }

/-- Add a multiple of a variable to the expression, and require equality. -/
def absorb (c : Constraint α) (coefficient : α) (v : Variable) : Constraint α :=
  { c with expression := c.expression.push coefficient v, relation := .equal }

/-- The bound less the value of the expression. -/
def slackAt (c : Constraint α) (values : List α) : Except (Fault α) α := do
  let value ← c.expression.evaluate values
  return c.bound - value

/-- Whether the relation holds of the values, up to a tolerance on the slack. -/
def isSatisfied (c : Constraint α) (values : List α) (tolerance : α) : Except (Fault α) Bool := do
  let slack ← c.slackAt values
  return match c.relation with
    | .atMost => -tolerance ≤ slack
    | .atLeast => slack ≤ tolerance
    | .equal => Scalar.isNegligible tolerance slack

end Constraint

end LinProg
