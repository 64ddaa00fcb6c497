import LinProg.Scalar.Binary64

/-!
# Settings

What a caller may choose about a solve. -/

namespace LinProg

/-- How the entering column and the leaving row of a pivot are chosen. -/
inductive PivotRule where
  /-- The column with the most negative reduced cost enters, and the row with the least ratio
  leaves; the lowest index breaks ties. -/
  | dantzig
  /-- The first improving column enters, and of the rows that tie in the ratio test the one whose
  basic variable has the lowest index leaves. It never cycles. -/
  | bland
deriving DecidableEq

/-- The choices of a caller. -/
structure Settings (α : Type) where
  /-- Magnitudes up to this one are taken for zero. -/
  tolerance : α
  /-- The most pivots that a phase may make. -/
  maxIterations : Nat
  /-- The rule that a phase starts with. -/
  rule : PivotRule
  /-- How many degenerate pivots in a row turn a phase from Dantzig's rule to Bland's. -/
  degenerateLimit : Nat

/-- The settings of a caller who makes no choice. -/
def Settings.standard : Settings Float where
  tolerance := 1e-9
  maxIterations := 10000
  rule := .dantzig
  degenerateLimit := 50

end LinProg
