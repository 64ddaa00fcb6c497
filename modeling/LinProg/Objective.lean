import LinProg.Expression

/-!
# Objectives

A linear expression to make as large or as small as the constraints allow. -/

namespace LinProg

/-- Which way an objective is better. -/
inductive Direction where
  /-- Larger is better. -/
  | maximize
  /-- Smaller is better. -/
  | minimize
deriving DecidableEq

/-- The other direction. -/
def Direction.inverted : Direction → Direction
  | maximize => minimize
  | minimize => maximize

/-- An expression to optimize. -/
structure Objective (α : Type) where
  /-- What is optimized. -/
  expression : Expression α
  /-- Which way. -/
  direction : Direction
deriving BEq

/-- Negate the expression and turn the direction around; the same points are optimal. -/
def Objective.invert {α : Type} [Scalar α] (o : Objective α) : Objective α :=
  ⟨o.expression.negate, o.direction.inverted⟩

end LinProg
