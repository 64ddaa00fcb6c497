import LinProg.Proofs.ExactUnits

/-!
# Arithmetic that is symmetric about zero

What is left of the rules for signs when results are rounded: to negate twice changes nothing, a
product with minus one is the opposite number, and sums, differences and products of opposite
numbers are opposite. The last two fail for a zero that comes of a cancellation, since both ways it
is the same zero. So numbers are called opposite when they are zeros, too (`Scalar.Opposite`), and
the rule for differences is for those that are not zero. -/

namespace LinProg.Scalar

variable {α : Type} [Scalar α]

/-- The two are opposite numbers, or zeros, whatever their signs are. -/
def Opposite (x y : α) : Prop :=
  y = -x ∨ IsZero x ∧ IsZero y

/-- Arithmetic that treats both signs alike. -/
class SignSymmetric (α : Type) [Scalar α] : Prop where
  /-- To negate is its own inverse. -/
  neg_neg (x : α) : - -x = x
  /-- A product with minus one is exact. -/
  mul_neg_one (x : α) : x * -1 = -x
  /-- To take away zero changes nothing. -/
  sub_zero (x : α) : x - 0 = x
  /-- The opposite of a finite scalar is finite. -/
  isFinite_neg (x : α) : isFinite (-x) = isFinite x
  /-- The opposite of a zero is a zero, and of no other scalar. -/
  beq_neg_zero (x : α) : (-x == 0) = (x == 0)
  /-- A difference of opposite numbers is opposite, unless it is zero. -/
  neg_sub_neg {a b : α} (h : ¬IsZero (a - b)) : -a - -b = -(a - b)
  /-- One of a difference and its opposite is below zero, unless they are zeros. -/
  neg_lt_zero_iff {a b : α} (ha : isFinite a = true) (hb : isFinite b = true)
    (h : ¬IsZero (a - b)) : -(a - b) < 0 ↔ ¬a - b < 0
  /-- Zero is a zero. -/
  isZero_zero : IsZero (0 : α)
  /-- A sum without terms is a zero. -/
  isZero_emptySum : IsZero (emptySum : α)
  /-- Products of opposite numbers with a scalar are opposite. -/
  opposite_mul {x y : α} (h : Opposite x y) (z : α) : Opposite (x * z) (y * z)
  /-- Sums of opposite numbers are opposite. -/
  opposite_add {x y z w : α} (h : Opposite x y) (k : Opposite z w) : Opposite (x + z) (y + w)

/-- Rationals are opposite when they are opposite numbers. -/
theorem opposite_exact (x y : ℚ) : Opposite x y ↔ y = -x := by
  unfold Opposite
  rw [isZero_exact, isZero_exact]
  constructor
  · rintro (h | ⟨rfl, rfl⟩)
    · exact h
    · exact neg_zero.symm
  · exact Or.inl

/-- Exact arithmetic is symmetric about zero. -/
instance : SignSymmetric ℚ where
  neg_neg := neg_neg
  mul_neg_one := mul_neg_one
  sub_zero := sub_zero
  isFinite_neg _ := rfl
  beq_neg_zero x := by
    rw [Bool.eq_iff_iff, beq_exact, beq_exact]
    exact neg_eq_zero
  neg_sub_neg {a b} _ := by
    change -a - -b = -(a - b)
    ring
  neg_lt_zero_iff {a b} _ _ h := by
    rw [isZero_exact] at h
    change -(a - b) < 0 ↔ ¬a - b < 0
    rw [neg_lt_zero, not_lt]
    exact ⟨le_of_lt, fun hle => lt_of_le_of_ne hle (Ne.symm h)⟩
  isZero_zero := (isZero_exact 0).2 rfl
  isZero_emptySum := (isZero_exact _).2 rfl
  opposite_mul {x y} h z := by
    rw [opposite_exact] at h ⊢
    rw [h]
    exact neg_mul x z
  opposite_add {x y z w} h k := by
    rw [opposite_exact] at h k ⊢
    rw [h, k]
    exact (neg_add x z).symm

end LinProg.Scalar
