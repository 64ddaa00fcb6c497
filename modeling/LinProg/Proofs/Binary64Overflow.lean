import LinProg.Proofs.Binary64Signs

/-!
# Where binary64 differences overflow

A double precision number that is finite stands for a rational (`value`). A difference of two is
computed without error at first, then rounded to a mantissa of 53 bits, and packed. It is packed as
an infinity when its exponent has become too large, and so when the difference of the values is
`2 ^ 1024 - 2 ^ 970` or more in magnitude: the midpoint between the largest finite number and the
next power of two, which rounds up (`isFinite_sub_iff`). -/

namespace LinProg.Scalar.Binary64

open Float.Model Float.Model.UnpackedFloat

/-! ## Values -/

/-- The rational that a finite unpacked number stands for; anything else counts as zero. -/
def unpackedValue : UnpackedFloat → ℚ
  | .finite s m e _ => s.apply m * 2 ^ e
  | _ => 0

/-- The rational that a finite number stands for. -/
def value (x : Float) : ℚ :=
  unpackedValue x.toModel.unpack

/-- The least magnitude that is rounded to an infinity. -/
def overflowBound : ℚ :=
  2 ^ 1024 - 2 ^ 970

/-- The bound is an odd multiple of half the last bit of the largest numbers. -/
theorem overflowBound_eq_mul : overflowBound = (2 ^ 54 - 1) * 2 ^ 970 := by
  rw [overflowBound, sub_mul, one_mul, ← pow_add]

/-- The bound is a positive number. -/
theorem overflowBound_pos : 0 < overflowBound :=
  sub_pos.2 (pow_lt_pow_right₀ one_lt_two (by decide))

/-- The opposite stands for the opposite value. -/
theorem unpackedValue_neg (u : UnpackedFloat) : unpackedValue u.neg = -unpackedValue u := by
  cases u with
  | finite s m e h =>
    show (((-s).apply m : ℤ) : ℚ) * 2 ^ e = -(((s.apply m : ℤ) : ℚ) * 2 ^ e)
    rw [neg_apply, Int.cast_neg, neg_mul]
  | infinity | notANumber | zero => exact neg_zero.symm

/-- The magnitude does not depend on the sign. -/
theorem abs_unpackedValue (s : Sign) (m : ℕ) (e : ℤ) (h : 0 < m) :
    |unpackedValue (.finite s m e h)| = m * 2 ^ e := by
  have hpow : |(2 : ℚ) ^ e| = 2 ^ e := abs_of_pos (zpow_pos two_pos e)
  show |((s.apply m : ℤ) : ℚ) * 2 ^ e| = m * 2 ^ e
  rw [abs_mul, hpow]
  cases s with
  | positive => exact congrArg (· * _) (Nat.abs_cast m)
  | negative =>
    show |((-(m : ℤ) : ℤ) : ℚ)| * _ = _
    rw [Int.cast_neg, abs_neg]
    exact congrArg (· * _) (Nat.abs_cast m)

/-! ## Packing -/

/-- A number with another exponent than the largest is finite. -/
theorem isFinite_unpack_packComponents (s : Sign) {exponent : BitVec 11} (fraction : BitVec 52)
    (h : exponent ≠ -1#11) :
    (UnpackedFloat.unpack Format.binary64
      (packComponents Format.binary64 s exponent fraction)).isFinite = true := by
  unfold UnpackedFloat.unpack
  simp only [unpackMantissa_packComponents, unpackExponent_packComponents]
  rw [if_neg h]
  split_ifs <;> rfl

/-- Whether a number is finite after it was packed. -/
def StaysFinite (u : UnpackedFloat) : Prop :=
  (UnpackedFloat.unpack Format.binary64 (UnpackedFloat.pack Format.binary64 u)).isFinite = true

/-- A zero stays finite. -/
theorem staysFinite_zero (s : Sign) : StaysFinite (.zero s) := by
  cases s <;> rfl

/-- A number is packed as an infinity when its exponent is too large. -/
theorem staysFinite_finite_iff (s : Sign) (m : ℕ) (e : ℤ) (h : 0 < m) :
    StaysFinite (.finite s m e h) ↔ e < 972 := by
  have hlimit : 2 ^ 11 ≤ (e + 1023 + 52).toNat + 1 ↔ ¬e < 972 := by omega
  unfold StaysFinite UnpackedFloat.pack
  dsimp only
  split_ifs with hinfinity hnormal
  · change 2 ^ 11 ≤ (e + 1023 + 52).toNat + 1 at hinfinity
    exact ⟨fun hfinite => absurd hfinite (by cases s <;> decide),
      fun he => absurd he (hlimit.1 hinfinity)⟩
  all_goals
    change ¬2 ^ 11 ≤ (e + 1023 + 52).toNat + 1 at hinfinity
    refine ⟨fun _ => not_not.1 fun he => hinfinity (hlimit.2 he), fun _ => ?_⟩
    apply isFinite_unpack_packComponents
  · -- The exponent fits into its bits and is not the largest.
    intro htop
    have hbits := congrArg BitVec.toNat htop
    rw [BitVec.toNat_ofNat] at hbits
    change _ % 2048 = 2047 at hbits
    change (e + 1023 + 52).toNat % 2048 = 2047 at hbits
    omega
  · decide

/-! ## Rounding a mantissa -/

/-- A shift leaves the quotient. -/
theorem mantissa_shiftRight (em : ExtendedMantissa) (k : ℕ) :
    (em >>> k).mantissa = em.mantissa / 2 ^ k := by
  induction k with
  | zero => exact (Nat.div_one _).symm
  | succ k ih =>
    show (em >>> k).mantissa / 2 = _
    rw [ih, Nat.div_div_eq_div_mul, pow_succ]

/-- The last bit that is shifted out is the one to round by. -/
theorem roundBit_shiftRight_succ (em : ExtendedMantissa) (k : ℕ) :
    (em >>> (k + 1)).roundBit = ((em.mantissa / 2 ^ k) % 2 != 0) := by
  rw [← mantissa_shiftRight]
  rfl

/-- Rounding goes to the mantissa or the next one. -/
theorem roundedMantissa_bounds (em : ExtendedMantissa) :
    em.mantissa ≤ em.roundedMantissa ∧ em.roundedMantissa ≤ em.mantissa + 1 := by
  obtain ⟨m, roundBit, stickyBit⟩ := em
  cases roundBit <;> cases stickyBit <;>
    simp only [ExtendedMantissa.roundedMantissa, ExtendedMantissa.accuracy,
      Accuracy.roundToNearestEven] <;> omega

/-- Below the midpoint a mantissa is rounded down. -/
theorem roundedMantissa_of_roundBit_eq_false {em : ExtendedMantissa} (h : em.roundBit = false) :
    em.roundedMantissa = em.mantissa := by
  obtain ⟨m, roundBit, stickyBit⟩ := em
  cases h
  cases stickyBit <;> rfl

/-- From the midpoint on an odd mantissa is rounded up. -/
theorem roundedMantissa_of_roundBit_eq_true {em : ExtendedMantissa} (h : em.roundBit = true)
    (hodd : em.mantissa % 2 = 1) : em.roundedMantissa = em.mantissa + 1 := by
  obtain ⟨m, roundBit, stickyBit⟩ := em
  cases h
  cases stickyBit with
  | false => exact congrArg (m + ·) hodd
  | true => rfl

/-- A mantissa of 53 bits is rounded to the next power of two from the midpoint on. -/
theorem roundedMantissa_shiftRight_lt_iff {m j : ℕ} (hm : m < 2 ^ 53 * 2 ^ j) :
    ((⟨m, false, false⟩ : ExtendedMantissa) >>> j).roundedMantissa < 2 ^ 53 ↔
      2 * m < (2 ^ 54 - 1) * 2 ^ j := by
  cases j with
  | zero =>
    show m < 2 ^ 53 ↔ _
    omega
  | succ i =>
    -- What is left of `m` before the last shift decides which way it goes.
    obtain ⟨n, hn⟩ : ∃ n, m / 2 ^ i = n := ⟨_, rfl⟩
    have hquotient : ((⟨m, false, false⟩ : ExtendedMantissa) >>> (i + 1)).mantissa = n / 2 := by
      rw [mantissa_shiftRight, pow_succ, ← Nat.div_div_eq_div_mul, hn]
    have hbit : ((⟨m, false, false⟩ : ExtendedMantissa) >>> (i + 1)).roundBit = (n % 2 != 0) := by
      rw [roundBit_shiftRight_succ, hn]
    have hsmall : n < 2 ^ 54 := by
      rw [← hn, Nat.div_lt_iff_lt_mul (by positivity)]
      calc m < 2 ^ 53 * 2 ^ (i + 1) := hm
        _ = 2 ^ 54 * 2 ^ i := by ring
    have hmidpoint : 2 * m < (2 ^ 54 - 1) * 2 ^ (i + 1) ↔ n < 2 ^ 54 - 1 := by
      rw [← hn, Nat.div_lt_iff_lt_mul (by positivity), pow_succ]
      omega
    rw [hmidpoint]
    obtain ⟨-, hup⟩ :=
      roundedMantissa_bounds ((⟨m, false, false⟩ : ExtendedMantissa) >>> (i + 1))
    rcases Nat.mod_two_eq_zero_or_one n with heven | hodd
    · have hdown := roundedMantissa_of_roundBit_eq_false (hbit.trans (by rw [heven]; rfl))
      omega
    · by_cases htop : n = 2 ^ 54 - 1
      · have hcarry := roundedMantissa_of_roundBit_eq_true (hbit.trans (by rw [hodd]; rfl))
          (by rw [hquotient]; omega)
        omega
      · omega

/-! ## Rounding a number -/

/-- The exponent that rounding aims at. -/
def target (m : ℕ) (e : ℤ) : ℤ :=
  Format.binary64.targetExponent (totalExponent m e)

/-- The mantissa of a number when it is rounded for the first time. -/
def firstMantissa (m : ℕ) (e : ℤ) : ℕ :=
  ((⟨m, false, false⟩ : ExtendedMantissa) >>> (target m e - e).toNat).roundedMantissa

/-- The exponent that rounding aims at keeps 53 bits and is not below the least one. -/
theorem target_eq_max (m : ℕ) (e : ℤ) : target m e = max (m.log2 + 1 + e - 53) (-1074) :=
  rfl

/-- The mantissa is shifted up to the exponent aimed at. -/
theorem shiftToTargetExponent_exact (m : ℕ) (e : ℤ) :
    shiftToTargetExponent Format.binary64 m e .exact =
      ((⟨m, false, false⟩ : ExtendedMantissa) >>> (target m e - e).toNat,
        e + (target m e - e).toNat) :=
  rfl

/-- A mantissa of 53 bits is not shifted. -/
theorem shiftToTargetExponent_of_lt {m : ℕ} {e : ℤ} (hm : m < 2 ^ 53) (he : -1074 ≤ e) :
    shiftToTargetExponent Format.binary64 m e .exact = (⟨m, false, false⟩, e) := by
  have hlog : m.log2 ≤ 52 := by
    rcases Nat.eq_zero_or_pos m with rfl | hpos
    · exact Nat.zero_le _
    · have := (Nat.log2_lt hpos.ne').2 hm
      omega
  have hstay : (target m e - e).toNat = 0 := by
    rw [target_eq_max]
    omega
  rw [shiftToTargetExponent_exact, hstay]
  exact Prod.ext rfl (add_zero e)

/-- A mantissa that was rounded to the next power of two is shifted once more. -/
theorem shiftToTargetExponent_carry {e : ℤ} (he : -1074 ≤ e) :
    shiftToTargetExponent Format.binary64 (2 ^ 53) e .exact = (⟨2 ^ 52, false, false⟩, e + 1) := by
  have hone : (target (2 ^ 53) e - e).toNat = 1 := by
    rw [target_eq_max, Nat.log2_two_pow]
    omega
  rw [shiftToTargetExponent_exact, hone]
  rfl

section Round

variable {m : ℕ} {e : ℤ} (hm : 0 < m)
include hm

/-- The mantissa is shifted until it has 53 bits. -/
theorem lt_two_pow_shift : m < 2 ^ 53 * 2 ^ (target m e - e).toNat := by
  rw [← pow_add, ← Nat.log2_lt hm.ne', target_eq_max]
  omega

/-- The first rounding gives 53 bits, or the next power of two. -/
theorem firstMantissa_le : firstMantissa m e ≤ 2 ^ 53 := by
  have hquotient : m / 2 ^ (target m e - e).toNat < 2 ^ 53 :=
    Nat.div_lt_of_lt_mul (mul_comm (2 ^ 53) _ ▸ lt_two_pow_shift hm)
  obtain ⟨-, hup⟩ :=
    roundedMantissa_bounds ((⟨m, false, false⟩ : ExtendedMantissa) >>> (target m e - e).toNat)
  rw [mantissa_shiftRight] at hup
  exact hup.trans hquotient

/-- Only a number of the least exponent is rounded to zero. -/
theorem target_of_firstMantissa_eq_zero (hzero : firstMantissa m e = 0) :
    target m e = -1074 ∨ target m e < e := by
  obtain ⟨hdown, -⟩ :=
    roundedMantissa_bounds ((⟨m, false, false⟩ : ExtendedMantissa) >>> (target m e - e).toNat)
  rw [mantissa_shiftRight] at hdown
  have hquotient : m / 2 ^ (target m e - e).toNat = 0 := Nat.le_zero.1 (hdown.trans hzero.le)
  have hsmall : m < 2 ^ (target m e - e).toNat :=
    (Nat.div_eq_zero_iff.1 hquotient).resolve_left (by positivity)
  have hlog := (Nat.log2_lt hm.ne').2 hsmall
  rw [target_eq_max] at hlog ⊢
  omega

/-- A rounded number stays finite when its exponent is small enough after the last shift. -/
theorem staysFinite_roundWithAccuracy (s : Sign) (he : e ≤ target m e) :
    StaysFinite (roundWithAccuracy Format.binary64 s m e .exact) ↔
      target m e < 971 ∨ target m e = 971 ∧ firstMantissa m e < 2 ^ 53 := by
  have hexponent : e + (target m e - e).toNat = target m e := by omega
  have hleast : -1074 ≤ target m e := le_max_right _ _
  have hzero := target_of_firstMantissa_eq_zero (e := e) hm
  unfold roundWithAccuracy
  rw [shiftToTargetExponent_exact, hexponent]
  dsimp only
  rcases (firstMantissa_le (e := e) hm).lt_or_eq with hlt | hcarry
  · have hsecond : shiftToTargetExponent Format.binary64
        ((⟨m, false, false⟩ : ExtendedMantissa) >>> (target m e - e).toNat).roundedMantissa
        (target m e) .exact = (⟨firstMantissa m e, false, false⟩, target m e) :=
      shiftToTargetExponent_of_lt hlt hleast
    rw [hsecond]
    dsimp only
    split_ifs with hnone
    · have := hzero hnone
      refine iff_of_true (staysFinite_zero s) ?_
      omega
    · rw [staysFinite_finite_iff]
      omega
  · have hsecond : shiftToTargetExponent Format.binary64
        ((⟨m, false, false⟩ : ExtendedMantissa) >>> (target m e - e).toNat).roundedMantissa
        (target m e) .exact = (⟨2 ^ 52, false, false⟩, target m e + 1) := by
      rw [← firstMantissa, hcarry]
      exact shiftToTargetExponent_carry hleast
    rw [hsecond]
    dsimp only
    rw [dif_neg (by decide), staysFinite_finite_iff]
    omega

omit hm in
/-- A number lies below the power of two that its exponents give. -/
theorem value_lt_two_pow : (m : ℚ) * 2 ^ e < 2 ^ (m.log2 + 1 + e : ℤ) := by
  have hlog : (m : ℚ) < 2 ^ (m.log2 + 1) := by exact_mod_cast Nat.lt_log2_self
  calc (m : ℚ) * 2 ^ e < 2 ^ (m.log2 + 1) * 2 ^ e := by gcongr
    _ = 2 ^ (m.log2 + 1 + e : ℤ) := by rw [zpow_add₀ two_ne_zero]; norm_cast

/-- A number is at least half of the power of two above it. -/
theorem two_pow_le_value : (2 : ℚ) ^ (m.log2 + e : ℤ) ≤ m * 2 ^ e := by
  have hlog : (2 : ℚ) ^ m.log2 ≤ m := by exact_mod_cast Nat.log2_self_le hm.ne'
  calc (2 : ℚ) ^ (m.log2 + e : ℤ) = 2 ^ m.log2 * 2 ^ e := by
        rw [zpow_add₀ two_ne_zero]; norm_cast
    _ ≤ m * 2 ^ e := by gcongr

/-- With the largest exponent a number is below the bound when it is rounded to 53 bits. -/
theorem value_lt_overflowBound_iff_of_target_eq (htarget : target m e = 971) (he : e ≤ 971) :
    (m : ℚ) * 2 ^ e < overflowBound ↔ firstMantissa m e < 2 ^ 53 := by
  obtain ⟨j, hj⟩ : ∃ j : ℕ, 971 - e = j := ⟨_, (Int.toNat_of_nonneg (by omega)).symm⟩
  -- Both sides are multiples of the last bit that is kept.
  have hshift : (m : ℚ) * 2 ^ e * 2 ^ j = 2 * m * 2 ^ 970 := by
    have hpow : (2 : ℚ) ^ e * 2 ^ j = 2 * 2 ^ 970 := by
      rw [← pow_succ', ← zpow_natCast, ← zpow_natCast, ← zpow_add₀ two_ne_zero]
      congr 1
      omega
    rw [mul_assoc, hpow, ← mul_assoc, mul_comm (m : ℚ)]
  have hfirst : firstMantissa m e < 2 ^ 53 ↔ 2 * m < (2 ^ 54 - 1) * 2 ^ j := by
    have hmantissa := roundedMantissa_shiftRight_lt_iff (lt_two_pow_shift (e := e) hm)
    rw [firstMantissa, htarget, hj]
    rwa [htarget, hj] at hmantissa
  calc (m : ℚ) * 2 ^ e < overflowBound
      ↔ (m : ℚ) * 2 ^ e * 2 ^ j < overflowBound * 2 ^ j :=
        (mul_lt_mul_iff_left₀ (by positivity)).symm
    _ ↔ 2 * m * 2 ^ 970 < ((2 ^ 54 - 1) * 2 ^ j : ℚ) * 2 ^ 970 := by
        rw [hshift, overflowBound_eq_mul, mul_right_comm (2 ^ 54 - 1 : ℚ)]
    _ ↔ (2 * m : ℚ) < (2 ^ 54 - 1) * 2 ^ j := mul_lt_mul_iff_left₀ (by positivity)
    _ ↔ ((2 * m : ℕ) : ℚ) < ((2 ^ 54 - 1) * 2 ^ j : ℕ) := by norm_num
    _ ↔ 2 * m < (2 ^ 54 - 1) * 2 ^ j := Nat.cast_lt
    _ ↔ firstMantissa m e < 2 ^ 53 := hfirst.symm

/-- A number is below the bound when the mantissa and the exponent that it is rounded to are. -/
theorem value_lt_overflowBound_iff (he : e ≤ target m e) :
    (m : ℚ) * 2 ^ e < overflowBound ↔
      target m e < 971 ∨ target m e = 971 ∧ firstMantissa m e < 2 ^ 53 := by
  have hmax := target_eq_max m e
  rcases lt_trichotomy (target m e) 971 with hlow | hmid | hhigh
  · refine iff_of_true ?_ (Or.inl hlow)
    calc (m : ℚ) * 2 ^ e < 2 ^ (m.log2 + 1 + e : ℤ) := value_lt_two_pow
      _ ≤ 2 ^ (1023 : ℤ) := zpow_le_zpow_right₀ one_le_two (by omega)
      _ = 2 ^ 53 * 2 ^ 970 := by
        rw [show (1023 : ℤ) = (53 + 970 : ℕ) from rfl, zpow_natCast, pow_add]
      _ < (2 ^ 54 - 1) * 2 ^ 970 := by
        gcongr
        norm_num
      _ = overflowBound := overflowBound_eq_mul.symm
  · have hmiddle := value_lt_overflowBound_iff_of_target_eq hm hmid (hmid ▸ he)
    rw [hmiddle]
    omega
  · refine iff_of_false (not_lt.2 ?_) (by omega)
    calc overflowBound ≤ 2 ^ 1024 := sub_le_self _ (by positivity)
      _ = 2 ^ (1024 : ℤ) := (zpow_natCast _ _).symm
      _ ≤ 2 ^ (m.log2 + e : ℤ) := zpow_le_zpow_right₀ one_le_two (by omega)
      _ ≤ m * 2 ^ e := two_pow_le_value hm

end Round

/-! ## Sums -/

/-- A number that is rounded without a loss of places stays finite below the bound. -/
theorem staysFinite_roundWithAccuracy_iff (s : Sign) {m : ℕ} {e : ℤ} (hm : 0 < m)
    (he : e ≤ target m e) :
    StaysFinite (roundWithAccuracy Format.binary64 s m e .exact) ↔ m * 2 ^ e < overflowBound :=
  (staysFinite_roundWithAccuracy hm s he).trans (value_lt_overflowBound_iff hm he).symm

/-- Places that are added to the mantissa are taken from the exponent. -/
theorem value_shiftLeft (m k : ℕ) (e : ℤ) : ((m <<< k : ℕ) : ℚ) * 2 ^ (e - k) = m * 2 ^ e := by
  have hpow : (2 : ℚ) ^ e = 2 ^ k * 2 ^ (e - k) := by
    rw [← zpow_natCast, ← zpow_add₀ two_ne_zero, add_sub_cancel]
  rw [hpow, Nat.shiftLeft_eq, Nat.cast_mul, Nat.cast_pow, mul_assoc]
  rfl

/-- Places that are added to the mantissa do not change the exponent aimed at. -/
theorem target_shiftLeft {m : ℕ} (hm : 0 < m) (k : ℕ) (e : ℤ) :
    target (m <<< k) (e - k) = target m e := by
  have hlog : (m <<< k).log2 = m.log2 + k := by
    induction k with
    | zero => rfl
    | succ k ih =>
      rw [Nat.shiftLeft_succ, Nat.log2_two_mul (Nat.shiftLeft_pos_iff.2 hm).ne', ih, add_assoc]
  rw [target_eq_max, target_eq_max, hlog]
  push_cast
  ring_nf

/-- A rounded number stays finite below the bound. -/
theorem staysFinite_round_iff (s : Sign) {m : ℕ} {e : ℤ} (hm : 0 < m) :
    StaysFinite (UnpackedFloat.round Format.binary64 s m e) ↔ m * 2 ^ e < overflowBound := by
  obtain ⟨k, hk⟩ : ∃ k, (e - target m e).toNat = k := ⟨_, rfl⟩
  have hround : UnpackedFloat.round Format.binary64 s m e =
      roundWithAccuracy Format.binary64 s (m <<< k) (e - k) .exact := hk ▸ rfl
  have hplaces : e - k ≤ target (m <<< k) (e - k) := by
    rw [target_shiftLeft hm]
    omega
  rw [hround, staysFinite_roundWithAccuracy_iff s (Nat.shiftLeft_pos_iff.2 hm) hplaces,
    value_shiftLeft]

/-- A sum of mantissas that is rounded stays finite below the bound. -/
theorem staysFinite_normalize_iff (n e : ℤ) (s : Sign) :
    StaysFinite (UnpackedFloat.normalize Format.binary64 n e s) ↔
      |(n : ℚ) * 2 ^ e| < overflowBound := by
  have habs : |(n : ℚ) * 2 ^ e| = n.natAbs * 2 ^ e := by
    rw [abs_mul, abs_of_pos (zpow_pos (two_pos : (0 : ℚ) < 2) e), Nat.cast_natAbs, Int.cast_abs]
  rw [habs]
  unfold UnpackedFloat.normalize
  rcases lt_trichotomy n 0 with hneg | rfl | hpos
  · rw [Int.compare_eq_lt.2 hneg]
    have hmagnitude : (-n).toNat = n.natAbs := by omega
    show StaysFinite (UnpackedFloat.round Format.binary64 .negative (-n).toNat e) ↔ _
    rw [hmagnitude]
    exact staysFinite_round_iff .negative (Int.natAbs_pos.2 hneg.ne)
  · refine iff_of_true (staysFinite_zero s) ?_
    rw [Int.natAbs_zero, Nat.cast_zero, zero_mul]
    exact overflowBound_pos
  · rw [Int.compare_eq_gt.2 hpos]
    have hmagnitude : n.toNat = n.natAbs := by omega
    show StaysFinite (UnpackedFloat.round Format.binary64 .positive n.toNat e) ↔ _
    rw [hmagnitude]
    exact staysFinite_round_iff .positive (Int.natAbs_pos.2 hpos.ne')

/-- With a lower exponent a number has another mantissa, and the same value. -/
theorem value_decreaseExponent (s : Sign) (m : ℕ) {e f : ℤ} (h : f ≤ e) (hm : 0 < m) :
    ((s.apply (decreaseExponent m e f).1 : ℤ) : ℚ) * 2 ^ f = unpackedValue (.finite s m e hm) := by
  obtain ⟨k, rfl⟩ := Int.le.dest h
  have hmantissa : ((decreaseExponent m (f + k) f).1 : ℚ) * 2 ^ f = m * 2 ^ (f + k) := by
    have hshift := value_shiftLeft m k (f + k)
    rw [add_sub_cancel_right] at hshift
    show ((m <<< (f + k - f).toNat : ℕ) : ℚ) * 2 ^ f = _
    rw [add_sub_cancel_left, Int.toNat_natCast, hshift]
  cases s with
  | positive => exact hmantissa
  | negative =>
    show ((-((decreaseExponent m (f + k) f).1 : ℤ) : ℤ) : ℚ) * 2 ^ f =
      ((-(m : ℤ) : ℤ) : ℚ) * 2 ^ (f + k)
    rw [Int.cast_neg, Int.cast_neg, neg_mul, neg_mul]
    exact congrArg _ hmantissa

/-! ## Numbers -/

/-- A number is finite when it stays so. -/
theorem staysFinite_unpack (x : Float) : StaysFinite x.toModel.unpack ↔ x.isFinite = true := by
  have hpacked : StaysFinite x.toModel.unpack ↔ (ofUnpacked x.toModel.unpack).isFinite = true :=
    Iff.rfl
  rw [hpacked, ofUnpacked_unpack]

/-- A finite number is below the bound in magnitude. -/
theorem abs_value_lt {x : Float} (hx : x.isFinite = true) : |value x| < overflowBound := by
  have hstays := (staysFinite_unpack x).2 hx
  change x.toModel.unpack.isFinite = true at hx
  unfold value
  cases hu : x.toModel.unpack with
  | notANumber | infinity => rw [hu] at hx; cases hx
  | zero s =>
    show |(0 : ℚ)| < _
    rw [abs_zero]
    exact overflowBound_pos
  | finite s m e hm =>
    -- The number has the exponent that rounding aims at already, so that its mantissa fits.
    have htarget : target m e = e := targetExponent_of_unpack hu
    have hplaces : (target m e - e).toNat = 0 := by omega
    have hmantissa := lt_two_pow_shift (e := e) hm
    have hfirst : firstMantissa m e = m := by
      rw [firstMantissa, hplaces]
      rfl
    rw [hplaces, pow_zero, mul_one] at hmantissa
    rw [hu, staysFinite_finite_iff] at hstays
    rw [abs_unpackedValue, value_lt_overflowBound_iff hm htarget.ge, hfirst]
    omega

/-- A sum of finite numbers is finite as long as it is below the bound in magnitude. -/
theorem isFinite_add_iff {x y : Float} (hx : x.isFinite = true) (hy : y.isFinite = true) :
    (x + y).isFinite = true ↔ |value x + value y| < overflowBound := by
  have hfinite : ∀ {z : Float}, z.isFinite = true →
      (StaysFinite z.toModel.unpack ↔ |unpackedValue z.toModel.unpack| < overflowBound) :=
    fun {z} hz => iff_of_true ((staysFinite_unpack z).2 hz) (abs_value_lt hz)
  have hsx := hfinite hx
  have hsy := hfinite hy
  change x.toModel.unpack.isFinite = true at hx
  change y.toModel.unpack.isFinite = true at hy
  show StaysFinite (UnpackedFloat.add Format.binary64 x.toModel.unpack y.toModel.unpack) ↔
    |unpackedValue x.toModel.unpack + unpackedValue y.toModel.unpack| < overflowBound
  generalize x.toModel.unpack = u at *
  generalize y.toModel.unpack = v at *
  cases u with
  | notANumber | infinity => cases hx
  | zero s =>
    have hzero : unpackedValue (.zero s) = 0 := rfl
    rw [hzero, zero_add]
    cases v with
    | notANumber | infinity => cases hy
    | zero t => cases s <;> cases t <;> exact hsy
    | finite t n f k => exact hsy
  | finite s m e h =>
    cases v with
    | notANumber | infinity => cases hy
    | zero t =>
      have hzero : unpackedValue (.zero t) = 0 := rfl
      rw [hzero, add_zero]
      exact hsx
    | finite t n f k =>
      have hsum := staysFinite_normalize_iff (s.apply (decreaseExponent m e (min e f)).1 +
        t.apply (decreaseExponent n f (min e f)).1) (min e f) .positive
      rw [Int.cast_add, add_mul, value_decreaseExponent s m (min_le_left e f) h,
        value_decreaseExponent t n (min_le_right e f) k] at hsum
      exact hsum

/-- A difference of finite numbers is finite as long as it is below the bound in magnitude. -/
theorem isFinite_sub_iff {x y : Float} (hx : x.isFinite = true) (hy : y.isFinite = true) :
    (x - y).isFinite = true ↔ |value x - value y| < overflowBound := by
  have hsub : x - y = x + -y := by
    show ofUnpacked (UnpackedFloat.sub Format.binary64 x.toModel.unpack y.toModel.unpack) =
      ofUnpacked (UnpackedFloat.add Format.binary64 x.toModel.unpack (-y).toModel.unpack)
    rw [sub_eq_add_neg_unpacked, unpack_neg]
  have hvalue : value (-y) = -value y := by
    unfold value
    rw [unpack_neg, unpackedValue_neg]
  have hneg : (-y).isFinite = true := (SignSymmetric.isFinite_neg y).trans hy
  rw [hsub, isFinite_add_iff hx hneg, hvalue, sub_eq_add_neg]

/-- A difference of finite numbers is a number. -/
theorem isNaN_sub {x y : Float} (hx : x.isFinite = true) (hy : y.isFinite = true) :
    (x - y).isNaN = false := by
  have hnumber := unpack_sub_ne_notANumber hx hy
  show (x - y).toModel.unpack.isNaN = false
  cases hunpack : (x - y).toModel.unpack with
  | notANumber => exact absurd hunpack hnumber
  | infinity | zero | finite => rfl

end LinProg.Scalar.Binary64
