import LinProg.Failure
import LinProg.Scalar

/-!
# Rows

Lists of scalars read as vectors: entries by position, the dot product, and the subtraction of a
multiple of one row from another. -/

namespace LinProg

variable {α : Type} [Scalar α]

namespace Row

/-- The entry at a position, zero beyond the end of the row. -/
def entry (row : List α) (j : Nat) : α :=
  (row[j]?).getD 0

/-- `target - factor * source`, entry by entry. The target keeps its length. -/
def subtractMultiple (factor : α) : (target source : List α) → List α
  | x :: target, y :: source => (x - factor * y) :: subtractMultiple factor target source
  | target, _ => target

/-- The elementary row operation. A factor of zero leaves the target as it is, so that entries of
the source that are not finite do no harm. -/
def eliminate (factor : α) (target source : List α) : List α :=
  if factor == 0 then target else subtractMultiple factor target source

@[simp] theorem length_subtractMultiple (factor : α) (target source : List α) :
    (subtractMultiple factor target source).length = target.length := by
  fun_induction subtractMultiple factor target source with
  | case1 x target y source ih => simp [ih]
  | case2 => rfl

@[simp] theorem length_eliminate (factor : α) (target source : List α) :
    (eliminate factor target source).length = target.length := by
  unfold eliminate
  split <;> simp

end Row

/-- The sum of the products of corresponding entries. -/
def dotProduct (x y : List α) : α :=
  Scalar.sum (List.zipWith (· * ·) x y)

/-- The dot product of two vectors of the same length. -/
def dot (x y : List α) : Except (Fault α) α :=
  if x.length = y.length then .ok (dotProduct x y) else .error .lengthMismatch

end LinProg
