import LinProg.Scalar

/-!
# Exact scalars

The rationals as scalars: every operation is the exact one, every rational is finite, and the
order is total. -/

namespace LinProg

/-- Exact rational arithmetic. -/
instance : Scalar Rat where
  toZero := ⟨0⟩
  toOne := ⟨1⟩
  toNeg := Rat.instNeg
  toAdd := Rat.instAdd
  toSub := Rat.instSub
  toMul := Rat.instMul
  toDiv := Rat.instDiv
  toLE := Rat.instLE
  toLT := Rat.instLT
  toBEq := @instBEqOfDecidableEq Rat instDecidableEqRat
  abs := Rat.abs
  isFinite _ := true
  emptySum := 0
  decidableLE := Rat.instDecidableLe
  decidableLT := Rat.instDecidableLt

end LinProg
