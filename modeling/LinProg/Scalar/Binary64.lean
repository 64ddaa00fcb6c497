import LinProg.Scalar

/-!
# Binary64 scalars

The IEEE 754 double precision numbers as scalars. Every operation rounds to nearest, ties to
even; there are two zeros that compare equal, two infinities, and a value that is not a number,
which compares with nothing, itself included. -/

namespace LinProg

/-- Double precision arithmetic. -/
instance : Scalar Float where
  toZero := ⟨0.0⟩
  toOne := ⟨1.0⟩
  toNeg := ⟨Float.neg⟩
  toAdd := ⟨Float.add⟩
  toSub := ⟨Float.sub⟩
  toMul := ⟨Float.mul⟩
  toDiv := ⟨Float.div⟩
  toLE := instLEFloat
  toLT := instLTFloat
  toBEq := ⟨Float.beq⟩
  abs := Float.abs
  isFinite := Float.isFinite
  emptySum := -0.0
  decidableLE := Float.decLe
  decidableLT := Float.decLt

end LinProg
