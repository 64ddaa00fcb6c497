import LinProg.Model
import LinProg.Script.Object

/-!
# Commands of a script

Changes of a model by untyped arguments. All arguments are first brought to their types, then a
relation is looked up by its sign, and then the model decides. -/

namespace LinProg.Script

/-- The relation of a sign. Equality has two. -/
def relationOf (sign : String) : Except Refusal Relation :=
  match sign with
  | "<=" => .ok .atMost
  | ">=" => .ok .atLeast
  | "==" | "=" => .ok .equal
  | sign => .error (.unknownRelation sign)

variable {α : Type} [Scalar α]

/-- Add a constraint to a model. -/
def addConstraint (M : Model α) (expression : Object α) (sign : String) (bound : Object α) :
    Except Refusal (Model α) := do
  let expression ← expression.asExpression
  let bound ← bound.asScalar
  let relation ← relationOf sign
  (M.addConstraint expression relation bound).mapError .rejected

/-- Set the objective of a model. -/
def optimize (M : Model α) (direction : Direction) (expression : Object α) :
    Except Refusal (Model α) := do
  let expression ← expression.asExpression
  (M.optimize direction expression).mapError .rejected

end LinProg.Script
