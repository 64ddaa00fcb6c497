import LinProg.Proofs.ExactUnits
import LinProg.Scalar.Binary64

/-!
# Binary64 arithmetic is exact about zero and one

The instance of `Scalar.ExactUnits` for double precision numbers. A number is unpacked into a sign,
a mantissa and an exponent, or into a zero, an infinity or no number at all, and the operations go
by these cases. The two zeros are the numbers that unpack to a zero (`isZero_iff`), so each fact is
a case of the operation, or a closed computation. -/

namespace LinProg.Scalar.Binary64

open Float.Model Float.Model.UnpackedFloat

/-- The number that an unpacked one is packed into. -/
def ofUnpacked (u : UnpackedFloat) : Float :=
  .ofModel (Float.Model.pack u)

/-! ## Zeros -/

/-- A zero is packed and unpacked without loss. -/
theorem unpack_pack_zero (s : Sign) : (Float.Model.pack (.zero s)).unpack = .zero s := by
  cases s with
  | negative => rfl
  | positive => rfl

/-- The zeros are the numbers that unpack to a zero. -/
theorem isZero_iff (x : Float) : IsZero x ↔ ∃ s, x.toModel.unpack = .zero s := by
  have hbeq : IsZero x ↔ (x.toModel.unpack.compare (.zero .positive) == some .eq) = true :=
    Iff.rfl
  rw [hbeq]
  cases x.toModel.unpack with
  | zero s => simp [UnpackedFloat.compare]
  | notANumber => simp [UnpackedFloat.compare]
  | infinity s => cases s <;> simp [UnpackedFloat.compare]
  | finite s m e h => cases s <;> simp [UnpackedFloat.compare]

/-- A packed zero is a zero. -/
theorem isZero_ofUnpacked (s : Sign) : IsZero (ofUnpacked (.zero s)) :=
  (isZero_iff _).2 ⟨s, unpack_pack_zero s⟩

/-- A finite number times a zero is a zero. -/
theorem exists_mul_zero {u : UnpackedFloat} (hu : u.isFinite = true) (s : Sign) :
    ∃ t, UnpackedFloat.mul Format.binary64 u (.zero s) = .zero t := by
  cases u with
  | zero t => exact ⟨t * s, rfl⟩
  | finite t m e h => exact ⟨t * s, rfl⟩
  | notANumber => cases hu
  | infinity t => cases hu

/-- A zero times a finite number is a zero. -/
theorem exists_zero_mul {u : UnpackedFloat} (hu : u.isFinite = true) (s : Sign) :
    ∃ t, UnpackedFloat.mul Format.binary64 (.zero s) u = .zero t := by
  cases u with
  | zero t => exact ⟨s * t, rfl⟩
  | finite t m e h => exact ⟨s * t, rfl⟩
  | notANumber => cases hu
  | infinity t => cases hu

/-- The difference of two zeros is a zero. -/
theorem exists_sub_zero (s t : Sign) :
    ∃ r, UnpackedFloat.sub Format.binary64 (.zero s) (.zero t) = .zero r := by
  cases s <;> cases t <;> exact ⟨_, rfl⟩

/-! ## The order -/

/-- A comparison the other way round has the opposite outcome. -/
theorem compare_swap (a b : UnpackedFloat) :
    b.compare a = (a.compare b).map Ordering.swap := by
  cases a with
  | notANumber => cases b <;> rfl
  | infinity s =>
    cases b with
    | infinity t => cases s <;> cases t <;> rfl
    | notANumber => cases s <;> rfl
    | zero t => cases s <;> rfl
    | finite t => cases s <;> cases t <;> rfl
  | zero s =>
    cases b with
    | infinity t => cases t <;> rfl
    | notANumber => rfl
    | zero t => rfl
    | finite t => cases t <;> rfl
  | finite s m e hm =>
    cases b with
    | infinity t => cases s <;> cases t <;> rfl
    | notANumber => cases s <;> rfl
    | zero t => cases s <;> rfl
    | finite t n f hn =>
      -- Of two numbers of one sign the exponents decide, and then the mantissas.
      have hmagnitude : (compare f e).then (compare n m) =
          ((compare e f).then (compare m n)).swap := by
        rw [Ordering.swap_then, Int.compare_swap, Nat.compare_swap]
      cases s <;> cases t <;> simp [UnpackedFloat.compare, hmagnitude]

/-- When a number is at most another, the other is not below it. -/
theorem not_lt_of_le {a b : Float} (hle : a ≤ b) : ¬b < a := by
  intro hlt
  have hisLE : (a.toModel.unpack.compare b.toModel.unpack).any (·.isLE) = true :=
    of_decide_eq_true hle
  have hisLT : (b.toModel.unpack.compare a.toModel.unpack == some .lt) = true :=
    of_decide_eq_true hlt
  rw [compare_swap] at hisLT
  cases hc : a.toModel.unpack.compare b.toModel.unpack with
  | none =>
    rw [hc] at hisLE
    cases hisLE
  | some order =>
    rw [hc] at hisLE hisLT
    cases order with
    | lt => cases hisLT
    | eq => cases hisLT
    | gt => cases hisLE

/-! ## The instance -/

/-- Double precision arithmetic is exact about zero and one. -/
instance : ExactUnits Float where
  isZero_zero := isZero_ofUnpacked .positive
  isZero_neg {z} h := by
    obtain ⟨s, hs⟩ := (isZero_iff z).1 h
    change IsZero (ofUnpacked z.toModel.unpack.neg)
    rw [hs]
    exact isZero_ofUnpacked _
  isZero_mul {a z} ha h := by
    obtain ⟨s, hs⟩ := (isZero_iff z).1 h
    obtain ⟨t, ht⟩ := exists_mul_zero (u := a.toModel.unpack) ha s
    change IsZero (ofUnpacked (.mul Format.binary64 a.toModel.unpack z.toModel.unpack))
    rw [hs, ht]
    exact isZero_ofUnpacked t
  isZero_mul_right {z a} h ha := by
    obtain ⟨s, hs⟩ := (isZero_iff z).1 h
    obtain ⟨t, ht⟩ := exists_zero_mul (u := a.toModel.unpack) ha s
    change IsZero (ofUnpacked (.mul Format.binary64 z.toModel.unpack a.toModel.unpack))
    rw [hs, ht]
    exact isZero_ofUnpacked t
  isZero_sub {y z} hy hz := by
    obtain ⟨s, hs⟩ := (isZero_iff y).1 hy
    obtain ⟨t, ht⟩ := (isZero_iff z).1 hz
    obtain ⟨r, hr⟩ := exists_sub_zero s t
    change IsZero (ofUnpacked (.sub Format.binary64 y.toModel.unpack z.toModel.unpack))
    rw [hs, ht, hr]
    exact isZero_ofUnpacked r
  -- What is left after the zeros are unpacked is one computation for each of the two.
  one_sub {z} h := by
    obtain ⟨s, hs⟩ := (isZero_iff z).1 h
    change ofUnpacked (.sub Format.binary64 (1.0 : Float).toModel.unpack z.toModel.unpack) =
      (1.0 : Float)
    rw [hs]
    cases s <;> decide +kernel
  isZero_one_sub_one := by
    change ((1.0 : Float).sub 1.0).beq 0.0 = true
    decide +kernel
  abs_of_isZero {z} h := by
    obtain ⟨s, hs⟩ := (isZero_iff z).1 h
    change ofUnpacked z.toModel.unpack.abs = (0.0 : Float)
    rw [hs]
    cases s <;> decide +kernel
  abs_sub_one {z} h := by
    obtain ⟨s, hs⟩ := (isZero_iff z).1 h
    change (ofUnpacked (.sub Format.binary64 z.toModel.unpack (1.0 : Float).toModel.unpack)).abs =
      (1.0 : Float)
    rw [hs]
    cases s <;> decide +kernel
  not_lt_zero := not_lt_of_le
  not_one_le hlt hle := not_lt_of_le hle hlt

end LinProg.Scalar.Binary64
