import Mathlib
import LinProg.DenseMatrix.Entries
import LinProg.Scalar.Exact

/-!
# Exact arithmetic

What the operations and tests of `Scalar` are over the rationals: the magnitude is the absolute
value, every number is finite, and a magnitude test at tolerance zero is an equation. A dot product
is a sum over the positions, with a list read as a vector that is zero beyond its end
(`Row.entry`). -/

namespace LinProg

namespace Scalar

/-- The magnitude of a rational is its absolute value. -/
theorem abs_exact (x : ℚ) : Scalar.abs x = |x| := by
  change Rat.abs x = |x|
  rcases le_total 0 x with h | h
  · rw [Rat.abs_of_nonneg h, abs_of_nonneg h]
  · rw [Rat.abs_of_nonpos h, abs_of_nonpos h]

/-- Every rational is finite. -/
@[simp] theorem isFinite_exact (x : ℚ) : Scalar.isFinite x = true := rfl

/-- The computed comparison of rationals is equality. -/
theorem beq_exact (x y : ℚ) : (@BEq.beq ℚ Scalar.toBEq x y = true) ↔ x = y :=
  decide_eq_true_iff

/-- A rational is negligible when its absolute value is within the tolerance. -/
theorem isNegligible_iff (tolerance x : ℚ) : isNegligible tolerance x = true ↔ |x| ≤ tolerance := by
  unfold isNegligible
  rw [decide_eq_true_eq, abs_exact]

/-- A rational is significant when its absolute value exceeds the tolerance. -/
theorem isSignificant_iff (tolerance x : ℚ) :
    isSignificant tolerance x = true ↔ tolerance < |x| := by
  unfold isSignificant
  rw [decide_eq_true_eq, abs_exact]

/-- A rational that is not significant has an absolute value within the tolerance. -/
theorem not_isSignificant_iff (tolerance x : ℚ) :
    ¬isSignificant tolerance x = true ↔ |x| ≤ tolerance := by
  rw [isSignificant_iff, not_lt]

/-- At tolerance zero everything but zero is significant. -/
theorem isSignificant_zero_iff (x : ℚ) : isSignificant 0 x = true ↔ x ≠ 0 := by
  rw [isSignificant_iff, abs_pos]

/-- The scalars of a list added up are its sum. -/
theorem sum_exact (xs : List ℚ) : Scalar.sum xs = xs.sum := by
  have h : ∀ (ys : List ℚ) (a : ℚ), ys.foldl (· + ·) a = a + ys.sum := by
    intro ys
    induction ys with
    | nil => intro a; simp
    | cons y ys ih =>
      intro a
      rw [List.foldl_cons, ih, List.sum_cons, add_assoc]
  calc Scalar.sum xs = xs.foldl (· + ·) 0 := rfl
    _ = xs.sum := by rw [h, zero_add]

end Scalar

namespace Row

variable {α : Type} [Scalar α]

/-- A row of zeros has no other entry. -/
theorem entry_replicate_zero (n j : ℕ) : entry (List.replicate n (0 : α)) j = 0 := by
  rcases lt_or_ge j n with h | h
  · rw [entry_of_lt (by simpa using h)]
    simp
  · exact entry_of_length_le (by simpa using h)

/-- The entries of two rows put together. -/
theorem entry_append (a b : List α) (j : ℕ) :
    entry (a ++ b) j = if j < a.length then entry a j else entry b (j - a.length) := by
  unfold entry
  rw [List.getElem?_append]
  split <;> rfl

/-- The front of a row has the same entries. -/
theorem entry_take (a : List α) (n j : ℕ) :
    entry (a.take n) j = if j < n then entry a j else 0 := by
  unfold entry
  rw [List.getElem?_take]
  split <;> rfl

/-- The entries of a row that a function gives. -/
theorem entry_ofFn {n : ℕ} (x : ℕ → α) (j : ℕ) :
    entry (List.ofFn fun k : Fin n => x k) j = if j < n then x j else 0 := by
  rcases lt_or_ge j n with h | h
  · rw [entry_of_lt (by simpa using h), if_pos h, List.getElem_ofFn]
  · rw [entry_of_length_le (by simpa using h), if_neg (not_lt.2 h)]

/-- The entries of a row that goes over the first numbers. -/
theorem entry_map_range (f : ℕ → α) (n j : ℕ) :
    entry ((List.range n).map f) j = if j < n then f j else 0 := by
  rcases lt_or_ge j n with h | h
  · rw [entry_of_lt (by simpa using h), if_pos h]
    simp
  · rw [entry_of_length_le (by simpa using h), if_neg (not_lt.2 h)]

end Row

/-- Terms that are zero from some index on do not count. -/
theorem sum_range_eq_sum_range {n k : ℕ} (hle : n ≤ k) {f : ℕ → ℚ}
    (hzero : ∀ j, n ≤ j → j < k → f j = 0) :
    ∑ j ∈ Finset.range k, f j = ∑ j ∈ Finset.range n, f j := by
  have hback : ∑ j ∈ Finset.Ico n k, f j = 0 := by
    refine Finset.sum_eq_zero fun j hj => ?_
    obtain ⟨hge, hlt⟩ := Finset.mem_Ico.1 hj
    exact hzero j hge hlt
  rw [← Finset.sum_range_add_sum_Ico f hle, hback, add_zero]

/-- The dot product of two rows of one length is a sum over the positions. -/
theorem dotProduct_eq_sum (a b : List ℚ) (h : a.length = b.length) :
    dotProduct a b = ∑ j ∈ Finset.range b.length, Row.entry a j * Row.entry b j := by
  unfold dotProduct
  rw [Scalar.sum_exact]
  -- By induction on the first row: the entries of the rest stand one place further on.
  induction a generalizing b with
  | nil =>
    have hb : b = [] := List.eq_nil_of_length_eq_zero h.symm
    simp [hb]
  | cons x a ih =>
    cases b with
    | nil => exact absurd h (Nat.succ_ne_zero _)
    | cons y b =>
      have := ih b (Nat.succ_injective h)
      rw [List.zipWith_cons_cons, List.sum_cons, this, List.length_cons, Finset.sum_range_succ']
      simp [Row.entry, add_comm]

/-- A dot product exists for two rows of one length. -/
theorem dot_eq_ok_iff (a b : List ℚ) (x : ℚ) :
    dot a b = .ok x ↔
      a.length = b.length ∧ x = ∑ j ∈ Finset.range b.length, Row.entry a j * Row.entry b j := by
  unfold dot
  split
  · rename_i h
    rw [dotProduct_eq_sum a b h, Except.ok.injEq, eq_comm]
    exact ⟨fun hx => ⟨h, hx⟩, fun hx => hx.2⟩
  · rename_i h
    exact ⟨nofun, fun hx => absurd hx.1 h⟩

end LinProg
