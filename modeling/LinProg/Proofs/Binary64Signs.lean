import LinProg.Proofs.Binary64Units
import LinProg.Proofs.SignSymmetry

/-!
# Binary64 arithmetic is symmetric about zero

The instance of `Scalar.SignSymmetric` for double precision numbers. A number is packed from a sign,
an exponent and a fraction, and to negate it is to turn its sign around, before it is packed as well
as after (`neg_ofUnpacked`, `unpack_neg`). Rounding looks at the magnitude only and hands the sign
through, so the operations on unpacked numbers commute with `neg`, up to the zeros that come of a
cancellation (`OppositeUnpacked`). A product with minus one has the mantissa shifted by 52 places,
and rounding shifts it back (`roundWithAccuracy_shifted`). -/

namespace LinProg.Scalar.Binary64

open Float.Model Float.Model.UnpackedFloat

/-! ## Signs -/

/-- To turn a sign around twice changes nothing. -/
theorem neg_neg_sign (s : Sign) : - -s = s := by
  cases s <;> rfl

/-- The opposite sign makes the opposite integer. -/
theorem neg_apply (s : Sign) (n : ℤ) : (-s).apply n = -s.apply n := by
  cases s with
  | negative => exact (neg_neg n).symm
  | positive => rfl

/-- A sign is one bit. -/
theorem ofBitVec_toBitVec (s : Sign) : Sign.ofBitVec s.toBitVec = s := by
  cases s <;> rfl

/-- A bit is one sign. -/
theorem toBitVec_ofBitVec (b : BitVec 1) : (Sign.ofBitVec b).toBitVec = b := by
  revert b
  decide

/-- To negate an unpacked number twice changes nothing. -/
theorem neg_neg_unpacked (u : UnpackedFloat) : u.neg.neg = u := by
  cases u with
  | notANumber => rfl
  | infinity s => exact congrArg UnpackedFloat.infinity (neg_neg_sign s)
  | zero s => exact congrArg UnpackedFloat.zero (neg_neg_sign s)
  | finite s m e h =>
    show UnpackedFloat.finite (- -s) m e h = _
    rw [neg_neg_sign]

/-! ## Packing -/

section Packing

variable (s : Sign) (exponent : BitVec Format.binary64.exponentBits)
  (fraction : BitVec Format.binary64.mantissaBitsWithoutImplicit)

/-- The sign is unpacked as it was packed. -/
theorem unpackSign_packComponents :
    unpackSign (packComponents Format.binary64 s exponent fraction) = s.toBitVec := by
  change (s.toBitVec ++ exponent ++ fraction).extractLsb' 63 1 = s.toBitVec
  rw [BitVec.extractLsb'_append_eq_of_le (by decide),
    BitVec.extractLsb'_append_eq_of_le (by decide)]
  cases s <;> rfl

/-- The opposite sign makes the opposite number. -/
theorem unpack_packComponents_neg :
    UnpackedFloat.unpack Format.binary64 (packComponents Format.binary64 (-s) exponent fraction) =
      (UnpackedFloat.unpack Format.binary64
        (packComponents Format.binary64 s exponent fraction)).neg := by
  unfold UnpackedFloat.unpack
  simp only [unpackMantissa_packComponents, unpackExponent_packComponents,
    unpackSign_packComponents, ofBitVec_toBitVec]
  split_ifs <;> rfl

end Packing

/-- A number is packed from its parts. -/
theorem packComponents_unpack (b : BitVec Format.binary64.numBits) :
    packComponents Format.binary64 (.ofBitVec (unpackSign b)) (unpackExponent b)
      (unpackMantissa b) = b := by
  simp only [packComponents, toBitVec_ofBitVec, unpackSign, unpackExponent, unpackMantissa,
    BitVec.extractLsb]
  ext i hi
  grind

/-- The mantissa of a normal number has a one in front of the fraction. -/
theorem toNat_append_fraction (fraction : BitVec 52) :
    (1#1 ++ fraction).toNat = 2 ^ 52 + fraction.toNat := by
  rw [BitVec.toNat_append, ← Nat.shiftLeft_add_eq_or_of_lt fraction.isLt]
  rfl

/-- A mantissa of 53 bits. -/
theorem log2_normal {f : ℕ} (hf : f < 2 ^ 52) : (2 ^ 52 + f).log2 = 52 := by
  rw [Nat.log2_eq_iff (by omega)]
  omega

/-- A finite number that was unpacked has the exponent that rounding aims at. -/
theorem targetExponent_of_unpack {b : BitVec Format.binary64.numBits} {s : Sign} {m : ℕ} {e : ℤ}
    {h : 0 < m} (hb : UnpackedFloat.unpack Format.binary64 b = .finite s m e h) :
    Format.binary64.targetExponent (totalExponent m e) = e := by
  have hfraction : (unpackMantissa b).toNat < 2 ^ 52 := (unpackMantissa b).isLt
  have hpositive : unpackExponent b ≠ 0#_ → 0 < (unpackExponent b).toNat := fun hne =>
    (BitVec.toNat_pos _).2 ((BitVec.pos_iff_ne_zero _).2 hne)
  have htarget : ∀ k : ℤ, Format.binary64.targetExponent k = max (k - 53) (-1074) := fun _ => rfl
  unfold UnpackedFloat.unpack at hb
  dsimp only at hb
  split_ifs at hb with hspecial hinfinite hsmall hzero
  · -- A subnormal number has the least exponent, and a mantissa of at most 52 bits.
    cases hb
    have hlog := (Nat.log2_lt (Nat.pos_iff_ne_zero.1 h)).2 hfraction
    rw [htarget, hsmall]
    unfold totalExponent
    change max (((unpackMantissa b).toNat.log2 : ℤ) + 1 + (0 - (1023 + 52) + 1) - 53) (-1074) =
      0 - (1023 + 52) + 1
    omega
  · -- A normal number has a mantissa of 53 bits.
    cases hb
    have hlog : (1#1 ++ unpackMantissa b).toNat.log2 = 52 := by
      rw [toNat_append_fraction]
      exact log2_normal hfraction
    have := hpositive hsmall
    rw [htarget]
    unfold totalExponent
    rw [hlog]
    change max ((52 : ℤ) + 1 + ((unpackExponent b).toNat - (1023 + 52)) - 53) (-1074) =
      (unpackExponent b).toNat - (1023 + 52)
    omega

/-- A subnormal number is packed with the exponent zero. -/
theorem pack_subnormal (s : Sign) (fraction : BitVec 52) (h : 0 < fraction.toNat) :
    UnpackedFloat.pack Format.binary64 (.finite s fraction.toNat (-1074) h) =
      packComponents Format.binary64 s 0#_ fraction := by
  have hlog := (Nat.log2_lt (Nat.pos_iff_ne_zero.1 h)).2 fraction.isLt
  have hbits : ¬fraction.toNat.log2 + 1 = 53 := by omega
  have hinfinity : ¬2 ^ 11 ≤ ((-1074 : ℤ) + 1023 + 52).toNat + 1 := by decide
  have hfraction : BitVec.ofNat 52 fraction.toNat = fraction := BitVec.ofNat_toNat ..
  calc UnpackedFloat.pack Format.binary64 (.finite s fraction.toNat (-1074) h)
      = packComponents Format.binary64 s 0#_ (BitVec.ofNat 52 fraction.toNat) := by
        unfold UnpackedFloat.pack
        exact (if_neg hinfinity).trans (if_neg hbits)
    _ = packComponents Format.binary64 s 0#_ fraction := by rw [hfraction]

/-- A normal number is packed without the one in front of its fraction. -/
theorem pack_normal (s : Sign) (exponent : BitVec 11) (hexponent : exponent ≠ -1#11)
    (fraction : BitVec 52) (h : 0 < (1#1 ++ fraction).toNat) :
    UnpackedFloat.pack Format.binary64
        (.finite s (1#1 ++ fraction).toNat (exponent.toNat - (1023 + 52)) h) =
      packComponents Format.binary64 s exponent fraction := by
  have hlog : (1#1 ++ fraction).toNat.log2 + 1 = 53 := by
    rw [toNat_append_fraction, log2_normal fraction.isLt]
  have hbiased : ((exponent.toNat : ℤ) - (1023 + 52) + 1023 + 52).toNat = exponent.toNat := by
    omega
  have hinfinity : ¬2 ^ 11 ≤ exponent.toNat + 1 := by
    intro hle
    refine hexponent (BitVec.eq_of_toNat_eq ?_)
    have := exponent.isLt
    change exponent.toNat = 2047
    omega
  have hfraction : BitVec.ofNat 52 (1#1 ++ fraction).toNat = fraction := by
    refine BitVec.eq_of_toNat_eq ?_
    rw [toNat_append_fraction, BitVec.toNat_ofNat, Nat.add_mod_left,
      Nat.mod_eq_of_lt fraction.isLt]
  calc UnpackedFloat.pack Format.binary64
        (.finite s (1#1 ++ fraction).toNat (exponent.toNat - (1023 + 52)) h)
      = packComponents Format.binary64 s
          (BitVec.ofNat 11 ((exponent.toNat : ℤ) - (1023 + 52) + 1023 + 52).toNat)
          (BitVec.ofNat 52 (1#1 ++ fraction).toNat) := by
        unfold UnpackedFloat.pack
        exact (if_neg (hbiased.symm ▸ hinfinity)).trans (if_pos hlog)
    _ = packComponents Format.binary64 s exponent fraction := by
        rw [hbiased, hfraction, BitVec.ofNat_toNat, BitVec.setWidth_eq]

/-- A bit pattern that is valid is packed again from what it unpacks to. -/
theorem pack_unpack {b : BitVec Format.binary64.numBits} (hb : Format.binary64.Valid b) :
    UnpackedFloat.pack Format.binary64 (UnpackedFloat.unpack Format.binary64 b) = b := by
  have hparts := packComponents_unpack b
  unfold UnpackedFloat.unpack
  dsimp only
  split_ifs with hspecial hinfinite hsmall hzero
  · rw [hspecial, hinfinite] at hparts
    exact hparts
  · exact (hb.eq_packedNaN hspecial hinfinite).symm
  · rw [hsmall, hzero] at hparts
    exact hparts
  · have hexponent : ((unpackExponent b).toNat : ℤ) - (1023 + 52) + 1 = -1074 := by
      rw [hsmall]
      rfl
    rw [hsmall] at hparts
    refine Eq.trans ?_ ((pack_subnormal _ (unpackMantissa b) ?_).trans hparts)
    · congr 2
    · exact (BitVec.toNat_pos _).2 ((BitVec.pos_iff_ne_zero _).2 hzero)
  · exact (pack_normal _ _ hspecial _ _).trans hparts

/-- A number that is not NaN is packed from a sign, an exponent and a fraction, and its opposite
from the same with the other sign. The largest exponent has the fraction zero. -/
theorem exists_packComponents {u : UnpackedFloat} (hu : u ≠ .notANumber) :
    ∃ s exponent fraction, (exponent = -1#_ → fraction = 0#_) ∧
      UnpackedFloat.pack Format.binary64 u = packComponents Format.binary64 s exponent fraction ∧
      UnpackedFloat.pack Format.binary64 u.neg =
        packComponents Format.binary64 (-s) exponent fraction := by
  cases u with
  | notANumber => exact absurd rfl hu
  | infinity s => exact ⟨s, -1#_, 0#_, fun _ => rfl, rfl, rfl⟩
  | zero s => exact ⟨s, 0#_, 0#_, fun _ => rfl, rfl, rfl⟩
  | finite s m e h =>
    unfold UnpackedFloat.neg UnpackedFloat.pack
    dsimp only
    split_ifs with hinfinity hnormal
    · exact ⟨s, -1#_, 0#_, fun _ => rfl, rfl, rfl⟩
    · refine ⟨s, _, _, fun hspecial => ?_, rfl, rfl⟩
      have htop := congrArg BitVec.toNat hspecial
      rw [BitVec.toNat_ofNat] at htop
      change _ % 2048 = 2047 at htop
      change ¬2048 ≤ _ + 1 at hinfinity
      omega
    · refine ⟨s, _, _, fun hspecial => ?_, rfl, rfl⟩
      exact absurd hspecial (by decide)

/-- What the opposite is packed into unpacks to the opposite. -/
theorem unpack_pack_neg (u : UnpackedFloat) :
    UnpackedFloat.unpack Format.binary64 (UnpackedFloat.pack Format.binary64 u.neg) =
      (UnpackedFloat.unpack Format.binary64 (UnpackedFloat.pack Format.binary64 u)).neg := by
  by_cases hu : u = .notANumber
  · rw [hu]
    rfl
  · obtain ⟨s, exponent, fraction, -, hpack, hneg⟩ := exists_packComponents hu
    rw [hneg, hpack, unpack_packComponents_neg]

/-! ## Numbers -/

/-- A number is packed from what it unpacks to. -/
theorem ofUnpacked_unpack (x : Float) : ofUnpacked x.toModel.unpack = x := by
  obtain ⟨⟨bits, hvalid⟩⟩ := x
  have hpack := pack_unpack hvalid
  unfold ofUnpacked Float.Model.pack Float.Model.unpack
  congr 2
  exact congrArg UInt64.ofBitVec hpack

/-- To negate a number negates what it unpacks to. -/
theorem unpack_neg (x : Float) : (-x).toModel.unpack = x.toModel.unpack.neg := by
  have h : (ofUnpacked x.toModel.unpack.neg).toModel.unpack =
      (ofUnpacked x.toModel.unpack).toModel.unpack.neg :=
    unpack_pack_neg x.toModel.unpack
  rw [ofUnpacked_unpack] at h
  exact h

/-- To negate what is packed negates the number. -/
theorem neg_ofUnpacked (u : UnpackedFloat) : -ofUnpacked u = ofUnpacked u.neg := by
  have h : (ofUnpacked u.neg).toModel.unpack = (ofUnpacked u).toModel.unpack.neg :=
    unpack_pack_neg u
  calc -ofUnpacked u = ofUnpacked (ofUnpacked u).toModel.unpack.neg := rfl
    _ = ofUnpacked (ofUnpacked u.neg).toModel.unpack := by rw [h]
    _ = ofUnpacked u.neg := ofUnpacked_unpack _

/-! ## Operations on opposite numbers -/

/-- Opposite unpacked numbers, or zeros, whatever their signs are. -/
def OppositeUnpacked (u v : UnpackedFloat) : Prop :=
  v = u.neg ∨ (∃ s, u = .zero s) ∧ ∃ t, v = .zero t

/-- Numbers are opposite when what they unpack to is. -/
theorem opposite_iff (x y : Float) :
    Opposite x y ↔ OppositeUnpacked x.toModel.unpack y.toModel.unpack := by
  refine or_congr ⟨?_, fun h => ?_⟩ (and_congr (isZero_iff x) (isZero_iff y))
  · rintro rfl
    exact unpack_neg x
  · calc y = ofUnpacked y.toModel.unpack := (ofUnpacked_unpack y).symm
      _ = ofUnpacked x.toModel.unpack.neg := by rw [h]

/-- Opposite unpacked numbers are packed into opposite numbers. -/
theorem opposite_ofUnpacked {u v : UnpackedFloat} (h : OppositeUnpacked u v) :
    Opposite (ofUnpacked u) (ofUnpacked v) := by
  rcases h with rfl | ⟨⟨s, rfl⟩, t, rfl⟩
  · exact Or.inl (neg_ofUnpacked u).symm
  · exact Or.inr ⟨isZero_ofUnpacked s, isZero_ofUnpacked t⟩

/-- Rounding hands the sign through. -/
theorem roundWithAccuracy_neg (s : Sign) (m : ℕ) (e : ℤ) (accuracy : Accuracy) :
    roundWithAccuracy Format.binary64 (-s) m e accuracy =
      (roundWithAccuracy Format.binary64 s m e accuracy).neg := by
  unfold roundWithAccuracy
  dsimp only
  split_ifs <;> rfl

/-- Opposite sums are rounded to opposite numbers, and to zeros when they cancel. -/
theorem normalize_neg (m e : ℤ) :
    OppositeUnpacked (UnpackedFloat.normalize Format.binary64 m e .positive)
      (UnpackedFloat.normalize Format.binary64 (-m) e .positive) := by
  unfold UnpackedFloat.normalize
  rcases lt_trichotomy m 0 with hm | rfl | hm
  · rw [Int.compare_eq_lt.2 hm, Int.compare_eq_gt.2 (neg_pos.2 hm)]
    exact Or.inl (roundWithAccuracy_neg .negative _ _ _)
  · exact Or.inr ⟨⟨_, rfl⟩, _, rfl⟩
  · rw [Int.compare_eq_gt.2 hm, Int.compare_eq_lt.2 (neg_lt_zero.2 hm), neg_neg]
    exact Or.inl (roundWithAccuracy_neg .positive _ _ _)

/-- A difference is the sum with the opposite number. -/
theorem sub_eq_add_neg_unpacked (u v : UnpackedFloat) :
    UnpackedFloat.sub Format.binary64 u v = UnpackedFloat.add Format.binary64 u v.neg := by
  cases u with
  | notANumber => rfl
  | infinity s => cases v <;> rfl
  | zero s => cases v <;> rfl
  | finite s m e h =>
    cases v with
    | notANumber => rfl
    | infinity t => rfl
    | zero t => rfl
    | finite t n f k =>
      unfold UnpackedFloat.sub UnpackedFloat.neg UnpackedFloat.add
      dsimp only
      rw [neg_apply]
      rfl

/-- The sum of the opposites of two numbers is opposite to their sum. -/
theorem add_neg_neg (u v : UnpackedFloat) :
    OppositeUnpacked (UnpackedFloat.add Format.binary64 u v)
      (UnpackedFloat.add Format.binary64 u.neg v.neg) := by
  cases u with
  | notANumber => exact Or.inl rfl
  | infinity s =>
    cases v with
    | infinity t => cases s <;> cases t <;> exact Or.inl rfl
    | notANumber | zero | finite => exact Or.inl rfl
  | zero s =>
    cases v with
    | zero t =>
      cases s <;> cases t <;> exact Or.inr ⟨⟨_, rfl⟩, _, rfl⟩
    | notANumber | infinity | finite => exact Or.inl rfl
  | finite s m e h =>
    cases v with
    | notANumber | infinity | zero => exact Or.inl rfl
    | finite t n f k =>
      have hsum := normalize_neg (s.apply (decreaseExponent m e (min e f)).1 +
        t.apply (decreaseExponent n f (min e f)).1) (min e f)
      rw [neg_add, ← neg_apply, ← neg_apply] at hsum
      exact hsum

/-- A zero of the other sign as a summand changes a sum only when this is a zero. -/
theorem add_zero_zero (s t : Sign) {v w : UnpackedFloat} (h : OppositeUnpacked v w) :
    OppositeUnpacked (UnpackedFloat.add Format.binary64 (.zero s) v)
      (UnpackedFloat.add Format.binary64 (.zero t) w) := by
  rcases h with rfl | ⟨⟨r, rfl⟩, q, rfl⟩
  · cases v with
    | zero r => cases s <;> cases t <;> cases r <;> exact Or.inr ⟨⟨_, rfl⟩, _, rfl⟩
    | notANumber | infinity | finite => exact Or.inl rfl
  · cases s <;> cases t <;> cases r <;> cases q <;> exact Or.inr ⟨⟨_, rfl⟩, _, rfl⟩

/-- Addition does not look at the order of its summands where one of them is a zero. -/
theorem add_zero_comm (s : Sign) (u : UnpackedFloat) :
    UnpackedFloat.add Format.binary64 u (.zero s) =
      UnpackedFloat.add Format.binary64 (.zero s) u := by
  cases u with
  | zero t => cases s <;> cases t <;> rfl
  | notANumber | infinity | finite => rfl

/-- Sums of opposite numbers are opposite. -/
theorem add_opposite {u u' v v' : UnpackedFloat} (hu : OppositeUnpacked u u')
    (hv : OppositeUnpacked v v') :
    OppositeUnpacked (UnpackedFloat.add Format.binary64 u v)
      (UnpackedFloat.add Format.binary64 u' v') := by
  rcases hu with rfl | ⟨⟨s, rfl⟩, s', rfl⟩
  · rcases hv with rfl | ⟨⟨t, rfl⟩, t', rfl⟩
    · exact add_neg_neg u v
    · rw [add_zero_comm, add_zero_comm]
      exact add_zero_zero t t' (Or.inl rfl)
  · exact add_zero_zero s s' hv

/-- A product with the sign turned around is opposite. -/
theorem mul_neg_left (u v : UnpackedFloat) :
    UnpackedFloat.mul Format.binary64 u.neg v = (UnpackedFloat.mul Format.binary64 u v).neg := by
  have hsign : ∀ s t : Sign, -s * t = -(s * t) := by
    intro s t
    cases s <;> cases t <;> rfl
  cases u with
  | notANumber => rfl
  | infinity s =>
    cases v with
    | infinity t => exact congrArg UnpackedFloat.infinity (hsign s t)
    | finite t n f k => exact congrArg UnpackedFloat.infinity (hsign s t)
    | notANumber | zero => rfl
  | zero s =>
    cases v with
    | zero t => exact congrArg UnpackedFloat.zero (hsign s t)
    | finite t n f k => exact congrArg UnpackedFloat.zero (hsign s t)
    | notANumber | infinity => rfl
  | finite s m e h =>
    cases v with
    | notANumber => rfl
    | infinity t => exact congrArg UnpackedFloat.infinity (hsign s t)
    | zero t => exact congrArg UnpackedFloat.zero (hsign s t)
    | finite t n f k =>
      have hround := roundWithAccuracy_neg (s * t) (m * n) (e + f) .exact
      rw [← hsign] at hround
      exact hround

/-- Products of opposite numbers with a number are opposite. -/
theorem mul_opposite {u u' : UnpackedFloat} (hu : OppositeUnpacked u u') (v : UnpackedFloat) :
    OppositeUnpacked (UnpackedFloat.mul Format.binary64 u v)
      (UnpackedFloat.mul Format.binary64 u' v) := by
  rcases hu with rfl | ⟨⟨s, rfl⟩, s', rfl⟩
  · exact Or.inl (mul_neg_left u v)
  · cases v with
    | zero t => exact Or.inr ⟨⟨_, rfl⟩, _, rfl⟩
    | finite t n f k => exact Or.inr ⟨⟨_, rfl⟩, _, rfl⟩
    | notANumber | infinity => exact Or.inl rfl

/-! ## The product with minus one -/

/-- A mantissa that is shifted up is shifted down without a rest. -/
theorem shiftRight_mul_two_pow (m k : ℕ) :
    (⟨m * 2 ^ k, false, false⟩ : ExtendedMantissa) >>> k = ⟨m, false, false⟩ := by
  induction k generalizing m with
  | zero => rw [pow_zero, mul_one]; rfl
  | succ k ih =>
    have hlast : (⟨m * 2, false, false⟩ : ExtendedMantissa).shiftRightOne = ⟨m, false, false⟩ := by
      simp [ExtendedMantissa.shiftRightOne]
    rw [pow_succ', ← mul_assoc]
    change ((⟨m * 2 * 2 ^ k, false, false⟩ : ExtendedMantissa) >>> k).shiftRightOne = _
    rw [ih, hlast]

/-- A number with 52 places more in its mantissa is rounded back to what it was. -/
theorem roundWithAccuracy_shifted (s : Sign) {m : ℕ} {e : ℤ} (hm : 0 < m)
    (he : Format.binary64.targetExponent (totalExponent m e) = e) :
    roundWithAccuracy Format.binary64 s (m * 2 ^ 52) (e - 52) .exact = .finite s m e hm := by
  have hlog : (m * 2 ^ 52).log2 = m.log2 + 52 := by
    have hlow : 2 ^ (m.log2 + 52) = 2 ^ m.log2 * 2 ^ 52 := pow_add ..
    have hhigh : 2 ^ (m.log2 + 52 + 1) = 2 ^ (m.log2 + 1) * 2 ^ 52 := by ring
    rw [Nat.log2_eq_iff (by positivity), hlow, hhigh]
    exact ⟨Nat.mul_le_mul_right _ (Nat.log2_self_le (Nat.pos_iff_ne_zero.1 hm)),
      Nat.mul_lt_mul_of_pos_right Nat.lt_log2_self (by decide)⟩
  have htotal : totalExponent (m * 2 ^ 52) (e - 52) = totalExponent m e := by
    unfold totalExponent
    rw [hlog]
    push_cast
    ring
  have hfirst : shiftToTargetExponent Format.binary64 (m * 2 ^ 52) (e - 52) .exact =
      (⟨m, false, false⟩, e) := by
    unfold shiftToTargetExponent shiftToExponent
    rw [htotal, he]
    dsimp only
    rw [sub_sub_cancel]
    exact Prod.ext (shiftRight_mul_two_pow m 52) (sub_add_cancel e 52)
  have hsecond : shiftToTargetExponent Format.binary64 m e .exact = (⟨m, false, false⟩, e) := by
    unfold shiftToTargetExponent shiftToExponent
    rw [he]
    dsimp only
    rw [sub_self]
    exact Prod.ext rfl (add_zero e)
  unfold roundWithAccuracy
  rw [hfirst]
  dsimp only
  rw [show (ExtendedMantissa.mk m false false).roundedMantissa = m from rfl, hsecond]
  dsimp only
  rw [dif_neg (Nat.pos_iff_ne_zero.1 hm)]

/-- A product with minus one is the opposite number. -/
theorem mul_neg_one_unpack (x : Float) :
    UnpackedFloat.mul Format.binary64 x.toModel.unpack (-1.0 : Float).toModel.unpack =
      x.toModel.unpack.neg := by
  have hone : (-1.0 : Float).toModel.unpack = .finite .negative (2 ^ 52) (-52) (by decide) := by
    rfl
  have hsign : ∀ s : Sign, s * .negative = -s := by
    intro s
    cases s <;> rfl
  rw [hone]
  cases hx : x.toModel.unpack with
  | notANumber => rfl
  | infinity s => exact congrArg UnpackedFloat.infinity (hsign s)
  | zero s => exact congrArg UnpackedFloat.zero (hsign s)
  | finite s m e h =>
    calc roundWithAccuracy Format.binary64 (s * .negative) (m * 2 ^ 52) (e - 52) .exact
        = roundWithAccuracy Format.binary64 (-s) (m * 2 ^ 52) (e - 52) .exact := by rw [hsign]
      _ = .finite (-s) m e h := roundWithAccuracy_shifted (-s) h (targetExponent_of_unpack hx)

/-! ## The instance -/

/-- The order of numbers is that of what they unpack to. -/
theorem lt_iff (x y : Float) :
    x < y ↔ (x.toModel.unpack.compare y.toModel.unpack == some .lt) = true :=
  ⟨of_decide_eq_true, decide_eq_true⟩

/-- Rounding gives a number. -/
theorem normalize_ne_notANumber (m e : ℤ) (s : Sign) :
    UnpackedFloat.normalize Format.binary64 m e s ≠ .notANumber := by
  have hround : ∀ (s : Sign) (m : ℕ) (e : ℤ),
      roundWithAccuracy Format.binary64 s m e .exact ≠ .notANumber := by
    intro s m e
    unfold roundWithAccuracy
    dsimp only
    split_ifs <;> simp
  unfold UnpackedFloat.normalize
  split
  · exact hround _ _ _
  · simp
  · exact hround _ _ _

/-- The sum of finite numbers is a number. -/
theorem add_ne_notANumber {u v : UnpackedFloat} (hu : u.isFinite = true) (hv : v.isFinite = true) :
    UnpackedFloat.add Format.binary64 u v ≠ .notANumber := by
  cases u with
  | notANumber => cases hu
  | infinity s => cases hu
  | zero s =>
    cases v with
    | notANumber => cases hv
    | infinity t => cases hv
    | zero t => cases s <;> cases t <;> exact UnpackedFloat.noConfusion
    | finite t n f k => exact UnpackedFloat.noConfusion
  | finite s m e h =>
    cases v with
    | notANumber => cases hv
    | infinity t => cases hv
    | zero t => exact UnpackedFloat.noConfusion
    | finite t n f k => exact normalize_ne_notANumber _ _ _

/-- What is a number is one when it is packed. -/
theorem unpack_pack_ne_notANumber {u : UnpackedFloat} (hu : u ≠ .notANumber) :
    UnpackedFloat.unpack Format.binary64 (UnpackedFloat.pack Format.binary64 u) ≠ .notANumber := by
  obtain ⟨s, exponent, fraction, htop, hpack, -⟩ := exists_packComponents hu
  rw [hpack]
  unfold UnpackedFloat.unpack
  simp only [unpackMantissa_packComponents, unpackExponent_packComponents]
  split_ifs with hspecial hinfinite
  · simp
  · exact absurd (htop hspecial) hinfinite
  all_goals simp

/-- A difference of finite numbers is a number. -/
theorem unpack_sub_ne_notANumber {a b : Float} (ha : a.isFinite = true) (hb : b.isFinite = true) :
    (a - b).toModel.unpack ≠ .notANumber := by
  have hneg : b.toModel.unpack.neg.isFinite = true := by
    rw [← hb]
    change b.toModel.unpack.neg.isFinite = b.toModel.unpack.isFinite
    cases b.toModel.unpack <;> rfl
  refine unpack_pack_ne_notANumber
    (u := UnpackedFloat.sub Format.binary64 a.toModel.unpack b.toModel.unpack) ?_
  rw [sub_eq_add_neg_unpacked]
  exact add_ne_notANumber ha hneg

/-- Of a number that is not zero and its opposite exactly one is below zero. -/
theorem neg_lt_zero_iff_of_ne {x : Float} (hnan : x.toModel.unpack ≠ .notANumber)
    (hzero : ¬IsZero x) : -x < (0.0 : Float) ↔ ¬x < (0.0 : Float) := by
  rw [isZero_iff] at hzero
  rw [lt_iff, lt_iff, unpack_neg, show (0.0 : Float).toModel.unpack = .zero .positive from rfl]
  cases hx : x.toModel.unpack with
  | notANumber => exact absurd hx hnan
  | zero s => exact absurd ⟨s, hx⟩ hzero
  | infinity s => cases s <;> decide
  | finite s m e h => cases s <;> simp [UnpackedFloat.neg, UnpackedFloat.compare]

/-- Double precision arithmetic is symmetric about zero. -/
instance : SignSymmetric Float where
  neg_neg x := by
    have h := neg_ofUnpacked x.toModel.unpack.neg
    rw [neg_neg_unpacked, ofUnpacked_unpack] at h
    exact h
  mul_neg_one x := congrArg ofUnpacked (mul_neg_one_unpack x)
  sub_zero x := by
    have h : UnpackedFloat.sub Format.binary64 x.toModel.unpack (.zero .positive) =
        x.toModel.unpack := by
      cases x.toModel.unpack with
      | zero s => cases s <;> rfl
      | notANumber | infinity | finite => rfl
    exact (congrArg ofUnpacked h).trans (ofUnpacked_unpack x)
  isFinite_neg x := by
    change (-x).toModel.unpack.isFinite = x.toModel.unpack.isFinite
    rw [unpack_neg]
    cases x.toModel.unpack <;> rfl
  beq_neg_zero x := by
    rw [Bool.eq_iff_iff]
    refine (isZero_iff (-x)).trans (Iff.trans ?_ (isZero_iff x).symm)
    rw [unpack_neg]
    cases x.toModel.unpack with
    | zero s => exact ⟨fun _ => ⟨s, rfl⟩, fun _ => ⟨-s, rfl⟩⟩
    | notANumber | infinity | finite => exact ⟨nofun, nofun⟩
  neg_sub_neg {a b} h := by
    have hsub : OppositeUnpacked
        (UnpackedFloat.sub Format.binary64 a.toModel.unpack b.toModel.unpack)
        (UnpackedFloat.sub Format.binary64 (-a).toModel.unpack (-b).toModel.unpack) := by
      rw [unpack_neg, unpack_neg, sub_eq_add_neg_unpacked, sub_eq_add_neg_unpacked]
      exact add_neg_neg _ _
    rcases opposite_ofUnpacked hsub with hneg | ⟨hzero, -⟩
    · exact hneg
    · exact absurd hzero h
  neg_lt_zero_iff {a b} ha hb h := neg_lt_zero_iff_of_ne (unpack_sub_ne_notANumber ha hb) h
  isZero_zero := ExactUnits.isZero_zero
  isZero_emptySum := isZero_ofUnpacked .negative
  opposite_mul {x y} h z := opposite_ofUnpacked (mul_opposite ((opposite_iff x y).1 h) _)
  opposite_add {x y z w} h k :=
    opposite_ofUnpacked (add_opposite ((opposite_iff x y).1 h) ((opposite_iff z w).1 k))

end LinProg.Scalar.Binary64
