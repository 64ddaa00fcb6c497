import LinProg.Proofs.ExactScalar

/-!
# Arithmetic that is exact about zero and one

What is left of arithmetic when nearly all results may be rounded. A scalar is a zero when it
compares equal to zero (`Scalar.IsZero`), so that signed zeros need not be told apart, and
`Scalar.ExactUnits` lists the facts about zeros and about one that a pivot relies on: a zero times a
finite scalar is a zero, taking away a zero changes nothing, and the operations and tests on zeros
and ones are exact. No fact is about any other scalar. -/

namespace LinProg.Scalar

variable {α : Type} [Scalar α]

/-- The scalar compares equal to zero. -/
def IsZero (x : α) : Prop :=
  (x == 0) = true

/-- Arithmetic that may round as it likes, except where zeros and ones alone are concerned. -/
class ExactUnits (α : Type) [Scalar α] : Prop where
  /-- Zero is a zero. -/
  isZero_zero : IsZero (0 : α)
  /-- The opposite of a zero is a zero. -/
  isZero_neg {z : α} (h : IsZero z) : IsZero (-z)
  /-- A finite multiple of a zero is a zero. -/
  isZero_mul {a z : α} (ha : isFinite a = true) (h : IsZero z) : IsZero (a * z)
  /-- A zero times a finite factor is a zero. -/
  isZero_mul_right {z a : α} (h : IsZero z) (ha : isFinite a = true) : IsZero (z * a)
  /-- The difference of two zeros is a zero. -/
  isZero_sub {y z : α} (hy : IsZero y) (hz : IsZero z) : IsZero (y - z)
  /-- One less a zero is one. -/
  one_sub {z : α} (h : IsZero z) : 1 - z = 1
  /-- One less one is a zero. -/
  isZero_one_sub_one : IsZero (1 - 1 : α)
  /-- The magnitude of a zero is zero. -/
  abs_of_isZero {z : α} (h : IsZero z) : Scalar.abs z = 0
  /-- A zero less one has the magnitude one. -/
  abs_sub_one {z : α} (h : IsZero z) : Scalar.abs (z - 1) = 1
  /-- What is at least zero is not below it. -/
  not_lt_zero {a : α} (h : 0 ≤ a) : ¬a < 0
  /-- What is below one is not at least one. -/
  not_one_le {a : α} (h : a < 1) : ¬1 ≤ a

section Tests

variable [ExactUnits α] {tolerance z : α}

/-- No zero is significant. -/
theorem isSignificant_eq_false_of_isZero (htol : 0 ≤ tolerance) (h : IsZero z) :
    isSignificant tolerance z = false := by
  unfold isSignificant
  rw [ExactUnits.abs_of_isZero h, decide_eq_false_iff_not]
  exact ExactUnits.not_lt_zero htol

/-- One less one is negligible. -/
theorem isNegligible_one_sub_one (htol : 0 ≤ tolerance) :
    isNegligible tolerance (1 - 1 : α) = true := by
  unfold isNegligible
  rw [ExactUnits.abs_of_isZero ExactUnits.isZero_one_sub_one]
  exact decide_eq_true htol

/-- A zero less one is not negligible when the tolerance is less than one. -/
theorem isNegligible_sub_one_eq_false (htol : tolerance < 1) (h : IsZero z) :
    isNegligible tolerance (z - 1) = false := by
  unfold isNegligible
  rw [ExactUnits.abs_sub_one h, decide_eq_false_iff_not]
  exact ExactUnits.not_one_le htol

end Tests

/-- A rational compares equal to zero when it is zero. -/
theorem isZero_exact (x : ℚ) : IsZero x ↔ x = 0 :=
  beq_exact x 0

/-- Exact arithmetic is exact about zero and one. -/
instance : ExactUnits ℚ where
  isZero_zero := (isZero_exact 0).2 rfl
  isZero_neg {z} h := by
    rw [isZero_exact] at h ⊢
    exact neg_eq_zero.2 h
  isZero_mul {a z} _ h := by
    rw [isZero_exact] at h ⊢
    exact mul_eq_zero_of_right a h
  isZero_mul_right {z a} h _ := by
    rw [isZero_exact] at h ⊢
    exact mul_eq_zero_of_left h a
  isZero_sub {y z} hy hz := by
    rw [isZero_exact] at hy hz ⊢
    rw [hy, hz]
    exact sub_self 0
  one_sub {z} h := by
    rw [(isZero_exact z).1 h]
    exact sub_zero 1
  isZero_one_sub_one := (isZero_exact _).2 (sub_self 1)
  abs_of_isZero {z} h := by
    rw [(isZero_exact z).1 h]
    rfl
  abs_sub_one {z} h := by
    rw [(isZero_exact z).1 h, abs_exact]
    change |(0 : ℚ) - 1| = 1
    norm_num
  not_lt_zero h := not_lt.2 h
  not_one_le h := not_le.2 h

end LinProg.Scalar
