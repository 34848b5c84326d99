import FactScore.Proofs.Expr.Comparison
import Mathlib

/-!
# Products of numbers

What rounding leaves of the algebra of products.  One is neutral for every number, also for those
that are not finite (`Number.one_mul`).  Signs multiply, up to results that are zero or not a number
(`Number.Sided.mul`), and so a penalty, which is an amount made negative, can only become a gain
when a negative number multiplies it (`Number.neg_of_pos_penalty`).
-/

namespace FactScore.Number

open Float.Model Float.Model.UnpackedFloat

section Neutral

/-- A mantissa that is a multiple of a power of two loses nothing when it is shifted by it. -/
theorem shiftRight_two_pow_mul (m n : Nat) :
    (ExtendedMantissa.mk (2 ^ n * m) false false) >>> n = .mk m false false := by
  change Nat.repeat ExtendedMantissa.shiftRightOne n (.mk (2 ^ n * m) false false) = _
  induction n generalizing m with
  | zero => simp [Nat.repeat]
  | succ n ih =>
    rw [Nat.repeat, Nat.pow_succ, Nat.mul_assoc, ih (2 * m)]
    simp [ExtendedMantissa.shiftRightOne]

theorem log2_two_pow_mul {m : Nat} (hm : 0 < m) (n : Nat) :
    (2 ^ n * m).log2 = m.log2 + n := by
  induction n with
  | zero => simp
  | succ n ih =>
    have hpos : 2 ^ n * m ≠ 0 := (Nat.mul_pos (Nat.two_pow_pos n) hm).ne'
    rw [Nat.pow_succ', Nat.mul_assoc, Nat.log2_two_mul hpos, ih, Nat.add_assoc]

theorem targetExponent_eq (m : Nat) (e : Int) :
    Format.binary64.targetExponent (totalExponent m e) = max (m.log2 + e - 52) (-1074) := by
  have hbits : (Format.binary64.mantissaBits : Int) = 53 := rfl
  have hleast : Format.binary64.minExponent = -1074 := rfl
  rw [Format.targetExponent, totalExponent, hbits, hleast]
  omega

/-- The exponent of a number is the one that rounding brings its mantissa to. -/
def Rounded : UnpackedFloat → Prop
  | .finite _ m e _ => max (m.log2 + e - 52) (-1074) = e
  | _ => True

/-- A leading bit counts for a power of two. -/
theorem toNat_leading_append (mantissa : BitVec 52) :
    (1#1 ++ mantissa).toNat = 2 ^ 52 + mantissa.toNat := by
  rw [BitVec.toNat_append, ← Nat.shiftLeft_add_eq_or_of_lt mantissa.isLt]
  rfl

theorem rounded_unpack (b : BitVec Format.binary64.numBits) :
    Rounded (UnpackedFloat.unpack .binary64 b) := by
  have hmantissa : (unpackMantissa b).toNat < 2 ^ 52 := (unpackMantissa b).isLt
  have hbias : (Format.binary64.exponentBias : Int) = 1023 := rfl
  unfold UnpackedFloat.unpack
  dsimp only
  split
  next => split <;> trivial
  next =>
    split
    next hexponent =>
      split
      next => trivial
      next hzero =>
        -- a subnormal number has the least exponent
        have hpos : (unpackMantissa b).toNat ≠ 0 := fun h => hzero (BitVec.eq_of_toNat_eq h)
        have hlog := (Nat.log2_lt hpos).mpr hmantissa
        simp only [Rounded, hexponent, hbias, BitVec.toNat_zero]
        omega
    next hexponent =>
      -- the mantissa of a normal number has its leading bit
      have hpos : (unpackExponent b).toNat ≠ 0 := fun h => hexponent (BitVec.eq_of_toNat_eq h)
      have hvalue : (1#1 ++ unpackMantissa b).toNat = 2 ^ 52 + (unpackMantissa b).toNat :=
        toNat_leading_append _
      have hlog : (1#1 ++ unpackMantissa b).toNat.log2 = 52 := by
        rw [hvalue, Nat.log2_eq_iff (by omega)]
        omega
      simp only [Rounded, hlog, hbias]
      omega

/-- Rounding undoes a scaling by a power of two. -/
theorem roundWithAccuracy_two_pow_mul {sign : Sign} {m : Nat} {e : Int} {hm : 0 < m}
    (h : Rounded (.finite sign m e hm)) (n : Nat) :
    roundWithAccuracy .binary64 sign (2 ^ n * m) (-n + e) .exact = .finite sign m e hm := by
  have htarget : Format.binary64.targetExponent (totalExponent m e) = e :=
    (targetExponent_eq m e).trans h
  have htarget' : Format.binary64.targetExponent (totalExponent (2 ^ n * m) (-n + e)) = e := by
    rw [targetExponent_eq, log2_two_pow_mul hm]
    simp only [Rounded] at h
    omega
  have hfirst : shiftToTargetExponent .binary64 (2 ^ n * m) (-n + e) .exact =
      (.mk m false false, e) := by
    have hshift : (e - (-n + e)).toNat = n := by omega
    simp only [shiftToTargetExponent, shiftToExponent, htarget', hshift]
    exact Prod.ext (shiftRight_two_pow_mul m n) (by simp only; omega)
  have hsecond : shiftToTargetExponent .binary64 m e .exact = (.mk m false false, e) := by
    simp only [shiftToTargetExponent, shiftToExponent, htarget, Int.sub_self]
    exact Prod.ext rfl (by simp)
  have hrounded : (ExtendedMantissa.mk m false false).roundedMantissa = m := rfl
  simp only [roundWithAccuracy, hfirst, hrounded, hsecond, dif_neg hm.ne']

theorem unpack_one : (1 : Float).toModel.unpack = .finite .positive (2 ^ 52) (-52) (by decide) :=
  rfl

/-- One is neutral for products, whatever the other number is. -/
theorem one_mul (x : Float) : 1 * x = x := by
  have hmul : UnpackedFloat.mul .binary64 (1 : Float).toModel.unpack x.toModel.unpack =
      x.toModel.unpack := by
    rw [unpack_one]
    have hrounded : Rounded x.toModel.unpack := rounded_unpack _
    cases hx : x.toModel.unpack with
    | notANumber => rfl
    | infinity sign => cases sign <;> rfl
    | zero sign => cases sign <;> rfl
    | finite sign m e hm =>
      rw [hx] at hrounded
      have hsign : Sign.positive * sign = sign := by cases sign <;> rfl
      rw [UnpackedFloat.mul, hsign]
      exact roundWithAccuracy_two_pow_mul hrounded 52
  refine Float.toBits_inj.mp (UInt64.toBitVec_inj.mp ?_)
  change UnpackedFloat.pack .binary64 (UnpackedFloat.mul .binary64 _ x.toModel.unpack) = _
  rw [hmul]
  exact pack_unpack_of_valid x.toModel.valid

end Neutral

section Signs

/-- A number is on one side of zero, or zero itself, or not a number at all. -/
def SidedParts (side : Sign) : UnpackedFloat → Prop
  | .infinity sign | .finite sign _ _ _ => sign = side
  | _ => True

/-- A number is nowhere on the other side of zero. -/
def Sided (side : Sign) (x : Float) : Prop :=
  SidedParts side x.toModel.unpack

variable {side side' : Sign} {x y : Float}

/-- The side is read off the sign bit. -/
theorem sidedParts_unpack {b : BitVec Format.binary64.numBits}
    (h : unpackSign b = side.toBitVec) : SidedParts side (UnpackedFloat.unpack .binary64 b) := by
  have hsign : Sign.ofBitVec (unpackSign b) = side := by rw [h, Sign.ofBitVec_toBitVec]
  unfold UnpackedFloat.unpack
  simp only [hsign]
  split
  next => split <;> trivial
  next =>
    split
    next => split <;> trivial
    next => trivial

/-- Packing keeps the side, also where it rounds to infinity. -/
theorem SidedParts.pack {u : UnpackedFloat} (h : SidedParts side u) :
    SidedParts side (UnpackedFloat.unpack .binary64 (UnpackedFloat.pack .binary64 u)) := by
  cases u with
  | notANumber =>
    rw [UnpackedFloat.pack, unpack_packedNaN]
    trivial
  | zero sign =>
    rw [UnpackedFloat.pack, unpack_packedZero]
    trivial
  | infinity sign =>
    obtain rfl : sign = side := h
    exact sidedParts_unpack (unpackSign_packComponents _ _ _)
  | finite sign m e hm =>
    obtain rfl : sign = side := h
    refine sidedParts_unpack ?_
    simp only [UnpackedFloat.pack]
    split
    next => exact unpackSign_packComponents _ _ _
    next => split <;> exact unpackSign_packComponents _ _ _

theorem sidedParts_roundWithAccuracy (sign : Sign) (m : Nat) (e : Int) (accuracy : Accuracy) :
    SidedParts sign (roundWithAccuracy .binary64 sign m e accuracy) := by
  unfold roundWithAccuracy
  simp only
  split <;> trivial

theorem Sided.mul (hx : Sided side x) (hy : Sided side' y) : Sided (side * side') (x * y) := by
  refine SidedParts.pack ?_
  unfold Sided at hx hy
  cases hu : x.toModel.unpack with
  | notANumber => trivial
  | zero sign => cases y.toModel.unpack <;> trivial
  | infinity sign =>
    rw [hu] at hx
    obtain rfl : sign = side := hx
    cases hv : y.toModel.unpack with
    | notANumber | zero => trivial
    | infinity sign' | finite sign' =>
      rw [hv] at hy
      obtain rfl : sign' = side' := hy
      rfl
  | finite sign m e hm =>
    rw [hu] at hx
    obtain rfl : sign = side := hx
    cases hv : y.toModel.unpack with
    | notANumber | zero => trivial
    | infinity sign' =>
      rw [hv] at hy
      obtain rfl : sign' = side' := hy
      rfl
    | finite sign' m' e' hm' =>
      rw [hv] at hy
      obtain rfl : sign' = side' := hy
      exact sidedParts_roundWithAccuracy _ _ _ _

theorem sided_abs (x : Float) : Sided .positive x.abs := by
  refine SidedParts.pack ?_
  cases x.toModel.unpack <;> trivial

theorem Sided.neg (h : Sided side x) : Sided (-side) (-x) := by
  refine SidedParts.pack ?_
  unfold Sided at h
  cases hu : x.toModel.unpack with
  | notANumber | zero => trivial
  | infinity sign | finite sign =>
    rw [hu] at h
    obtain rfl : sign = side := h
    rfl

theorem not_pos_iff : ¬0 < x ↔ Sided .negative x := by
  rw [lt_iff]
  change ¬UnpackedFloat.compare (.zero .positive) x.toModel.unpack = _ ↔ _
  unfold Sided
  cases x.toModel.unpack with
  | notANumber | zero => simp [SidedParts, UnpackedFloat.compare]
  | infinity sign | finite sign => cases sign <;> simp [SidedParts, UnpackedFloat.compare]

theorem not_neg_iff : ¬x < 0 ↔ Sided .positive x := by
  rw [lt_iff]
  change ¬UnpackedFloat.compare x.toModel.unpack (.zero .positive) = _ ↔ _
  unfold Sided
  cases x.toModel.unpack with
  | notANumber | zero => simp [SidedParts, UnpackedFloat.compare]
  | infinity sign | finite sign => cases sign <;> simp [SidedParts, UnpackedFloat.compare]

/-- What is below a negative number is negative. -/
theorem neg_of_lt_of_neg (h : y < x) (hx : x < 0) : y < 0 := by
  rw [lt_iff] at h hx ⊢
  change UnpackedFloat.compare y.toModel.unpack x.toModel.unpack = _ at h
  change UnpackedFloat.compare x.toModel.unpack (.zero .positive) = _ at hx
  change UnpackedFloat.compare y.toModel.unpack (.zero .positive) = _
  cases hu : x.toModel.unpack with
  | notANumber | zero => simp [hu, UnpackedFloat.compare] at hx
  | infinity sign | finite sign =>
    rw [hu] at h hx
    cases sign with
    | positive => simp [UnpackedFloat.compare] at hx
    | negative =>
      cases hv : y.toModel.unpack with
      | notANumber | zero => simp [hv, UnpackedFloat.compare] at h
      | infinity sign' | finite sign' =>
        cases sign' <;> simp_all [UnpackedFloat.compare]

theorem Sided.of_neg (h : x < 0) : Sided .negative x := by
  refine not_pos_iff.mp fun hpos => ?_
  rw [lt_iff] at h hpos
  rw [compare?_swap, hpos] at h
  cases h

/-- A penalty by itself is no gain. -/
theorem not_pos_penalty (amount : Float) : ¬0 < -amount.abs :=
  not_pos_iff.mpr (sided_abs amount).neg

/-- A penalty that comes out as a gain was multiplied by a negative number. -/
theorem neg_of_pos_penalty {amount : Float} (h : 0 < -amount.abs * x) : x < 0 := by
  by_contra hx
  exact not_pos_iff.mpr ((sided_abs amount).neg.mul (not_neg_iff.mp hx)) h

/-- A penalty that is multiplied by a negative number takes nothing. -/
theorem not_neg_penalty {amount : Float} (h : x < 0) : ¬-amount.abs * x < 0 :=
  not_neg_iff.mpr ((sided_abs amount).neg.mul (.of_neg h))

end Signs

end FactScore.Number
