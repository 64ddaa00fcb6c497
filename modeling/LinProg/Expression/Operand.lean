import LinProg.Expression

/-!
# Operands

What stands on either side of an arithmetic sign: a scalar, a variable or an expression. Sums and
differences first turn both sides into expressions. Products and opposites treat a variable apart:
they give a single term without a constant, where multiplying an expression also multiplies the
constant, and over binary64 that may turn zero into negative zero.

The reflected methods belong to the right-hand side of a sign. A reflected sum starts with the
receiver's terms, a reflected difference with the operand's. -/

namespace LinProg

/-- Something that takes part in arithmetic. -/
inductive Operand (α : Type) where
  /-- A number. -/
  | scalar (k : α)
  /-- A variable by itself. -/
  | var (v : Variable)
  /-- An expression. -/
  | expression (e : Expression α)

namespace Operand

variable {α : Type} [Scalar α]

/-- The operand as an expression. -/
def toExpression : Operand α → Expression α
  | scalar k => .ofScalar k
  | var v => .ofVariable v
  | expression e => e

/-- The sum of two operands. -/
def add (a b : Operand α) : Expression α :=
  a.toExpression.add b.toExpression

/-- The difference of two operands. -/
def subtract (a b : Operand α) : Expression α :=
  a.toExpression.subtract b.toExpression

/-- A multiple of an operand. -/
def times (factor : α) : Operand α → Expression α
  | var v => .ofTerm factor v
  | a => a.toExpression.scale factor

/-- The operand with the opposite sign. -/
def opposite : Operand α → Expression α
  | var v => .ofTerm (-1) v
  | a => a.toExpression.negate

end Operand

/-- A method of a variable or an expression that takes another operand. -/
inductive BinaryMethod where
  /-- The sum of the receiver and the operand. -/
  | add
  /-- The sum for a receiver on the right of the sign. -/
  | reflectedAdd
  /-- The difference of the receiver and the operand. -/
  | subtract
  /-- The difference for a receiver on the right of the sign. -/
  | reflectedSubtract
deriving DecidableEq

/-- What a method gives for a receiver and an operand. -/
def BinaryMethod.apply {α : Type} [Scalar α] (method : BinaryMethod)
    (receiver operand : Operand α) : Expression α :=
  match method with
  | add | reflectedAdd => receiver.add operand
  | subtract => receiver.subtract operand
  | reflectedSubtract => operand.subtract receiver

end LinProg
