/-!
# Scalars

The arithmetic that expressions, matrices and the simplex method are written over. Nothing above
this module asks for more than a `Scalar` type, so one solver runs on binary64 numbers
(`Scalar/Binary64.lean`) and on exact rationals (`Scalar/Exact.lean`), and a statement over every
`Scalar` type assumes nothing about rounding.

The order is taken as it is computed. Over binary64 neither `a ≤ b` nor `b < a` holds when one of
the two is not a number, so a test is never replaced by the negation of its converse. -/

namespace LinProg

/-- A type of numbers with the operations, tests and constants that the solver computes with. -/
class Scalar (α : Type) extends Zero α, One α, Neg α, Add α, Sub α, Mul α, Div α, LE α, LT α,
    BEq α where
  /-- The magnitude. -/
  abs : α → α
  /-- Whether the scalar is an ordinary number, neither infinite nor undefined. -/
  isFinite : α → Bool
  /-- The value of a sum without terms. It is neutral for addition, which over binary64 singles
  out negative zero. -/
  emptySum : α
  /-- The order is decided by computation. -/
  decidableLE : DecidableLE α
  /-- The strict order is decided by computation. -/
  decidableLT : DecidableLT α

attribute [reducible, instance] Scalar.decidableLE Scalar.decidableLT

namespace Scalar

variable {α : Type} [Scalar α]

/-- The scalars of a list, added from left to right. -/
def sum (xs : List α) : α :=
  xs.foldl (· + ·) emptySum

/-- A scalar whose magnitude does not exceed `tolerance`; it is taken for zero. -/
def isNegligible (tolerance x : α) : Bool :=
  abs x ≤ tolerance

/-- A scalar whose magnitude exceeds `tolerance`; it is taken for different from zero. A scalar
that is not a number is neither negligible nor significant. -/
def isSignificant (tolerance x : α) : Bool :=
  tolerance < abs x

end Scalar

end LinProg
