import FactScore.Proofs.Number.Order
import FactScore.Proofs.Number.Products

/-!
# Exact values of numbers

A finite number stands for a rational number, its mantissa times a power of two (`Number.exact`).
No two mantissas of numbers overlap, as each number has the exponent that rounding brings it to, so
finite numbers compare as their exact values do (`Number.le_iff_exact`).
-/

namespace FactScore.Number

open Float.Model Float.Model.UnpackedFloat

/-- One, or minus one. -/
def signFactor (sign : Sign) : ℚ :=
  sign.apply 1

/-- What the parts of a number stand for; zero if they are not finite. -/
def exactParts : UnpackedFloat → ℚ
  | .finite sign m e _ => signFactor sign * (m * 2 ^ e)
  | _ => 0

/-- The exact value of a number; zero if it is not finite. -/
def exact (x : Float) : ℚ :=
  exactParts x.toModel.unpack

@[simp] theorem signFactor_positive : signFactor .positive = 1 := rfl

@[simp] theorem signFactor_negative : signFactor .negative = -1 := rfl

@[simp] theorem signFactor_neg (sign : Sign) : signFactor (-sign) = -signFactor sign := by
  cases sign with
  | positive => rfl
  | negative => exact (neg_neg (1 : ℚ)).symm

theorem signFactor_div (sign sign' : Sign) :
    signFactor (sign / sign') = signFactor sign / signFactor sign' := by
  cases sign' with
  | positive =>
    rw [signFactor_positive, div_one]
    cases sign <;> rfl
  | negative =>
    rw [signFactor_negative, div_neg, div_one, ← signFactor_neg]
    cases sign <;> rfl

@[simp] theorem exactParts_zero (sign : Sign) : exactParts (.zero sign) = 0 := rfl

@[simp] theorem exactParts_finite (sign : Sign) (m : ℕ) (e : ℤ) (hm : 0 < m) :
    exactParts (.finite sign m e hm) = signFactor sign * (m * 2 ^ e) := rfl

theorem magnitude_pos {m : ℕ} (hm : 0 < m) (e : ℤ) : (0 : ℚ) < m * 2 ^ e := by
  have : (0 : ℚ) < m := Nat.cast_pos.mpr hm
  positivity

namespace Rounded

variable {sign sign' : Sign} {m m' : ℕ} {e e' : ℤ} {hm : 0 < m} {hm' : 0 < m'}

theorem mantissa_lt (h : Rounded (.finite sign m e hm)) : m < 2 ^ 53 := by
  simp only [Rounded] at h
  exact (Nat.log2_lt hm.ne').mp (by omega)

theorem le_exponent (h : Rounded (.finite sign m e hm)) : -1074 ≤ e := by
  simp only [Rounded] at h
  omega

/-- Only a number with the least exponent may have fewer bits. -/
theorem le_mantissa (h : Rounded (.finite sign m e hm)) (he : -1074 < e) : 2 ^ 52 ≤ m := by
  simp only [Rounded] at h
  exact (Nat.le_log2 hm.ne').mp (by omega)

/-- A smaller exponent makes for a smaller magnitude. -/
theorem magnitude_lt (h : Rounded (.finite sign m e hm)) (h' : Rounded (.finite sign' m' e' hm'))
    (he : e < e') : (m : ℚ) * 2 ^ e < m' * 2 ^ e' := by
  have hm53 : (m : ℚ) < 2 ^ (53 : ℤ) := by exact_mod_cast h.mantissa_lt
  have hm52 : (2 : ℚ) ^ (52 : ℤ) ≤ m' := by
    exact_mod_cast h'.le_mantissa (lt_of_le_of_lt h.le_exponent he)
  calc (m : ℚ) * 2 ^ e < 2 ^ (53 : ℤ) * 2 ^ e := by gcongr
    _ = 2 ^ (53 + e) := (zpow_add₀ two_ne_zero _ _).symm
    _ ≤ 2 ^ (52 + e') := zpow_le_zpow_right₀ one_le_two (by omega)
    _ = 2 ^ (52 : ℤ) * 2 ^ e' := zpow_add₀ two_ne_zero _ _
    _ ≤ m' * 2 ^ e' := by gcongr

/-- Exponents and then mantissas compare as the magnitudes do. -/
theorem compare_magnitudes (h : Rounded (.finite sign m e hm))
    (h' : Rounded (.finite sign' m' e' hm')) :
    (compare e e').then (compare m m') = compare ((m : ℚ) * 2 ^ e) (m' * 2 ^ e') := by
  rcases lt_trichotomy e e' with he | rfl | he
  · rw [compare_lt_iff_lt.mpr he, compare_lt_iff_lt.mpr (h.magnitude_lt h' he)]
    rfl
  · have hpow : (0 : ℚ) < 2 ^ e := by positivity
    rw [compare_eq_iff_eq.mpr rfl]
    change compare m m' = _
    rcases lt_trichotomy m m' with hlt | rfl | hlt
    · rw [compare_lt_iff_lt.mpr hlt, eq_comm, compare_lt_iff_lt]
      gcongr
    · rw [compare_eq_iff_eq.mpr rfl, compare_eq_iff_eq.mpr rfl]
    · rw [compare_gt_iff_gt.mpr hlt, eq_comm, compare_gt_iff_gt]
      gcongr
  · rw [compare_gt_iff_gt.mpr he, compare_gt_iff_gt.mpr (h'.magnitude_lt h he)]
    rfl

end Rounded

/-- Finite numbers compare as their exact values do. -/
theorem compare_exactParts {x y : UnpackedFloat} (hx : x.isFinite = true) (hy : y.isFinite = true)
    (hrx : Rounded x) (hry : Rounded y) :
    x.compare y = some (compare (exactParts x) (exactParts y)) := by
  cases x with
  | notANumber | infinity => cases hx
  | zero sign =>
    cases y with
    | notANumber | infinity => cases hy
    | zero sign' => rfl
    | finite sign' m' e' hm' =>
      have hpos := magnitude_pos hm' e'
      cases sign' with
      | positive =>
        refine congrArg some (compare_lt_iff_lt.mpr ?_).symm
        simpa using hpos
      | negative =>
        refine congrArg some (compare_gt_iff_gt.mpr ?_).symm
        simpa using hpos
  | finite sign m e hm =>
    have hpos := magnitude_pos hm e
    cases y with
    | notANumber | infinity => cases hy
    | zero sign' =>
      cases sign with
      | positive =>
        refine congrArg some (compare_gt_iff_gt.mpr ?_).symm
        simpa using hpos
      | negative =>
        refine congrArg some (compare_lt_iff_lt.mpr ?_).symm
        simpa using hpos
    | finite sign' m' e' hm' =>
      have hpos' := magnitude_pos hm' e'
      cases sign with
      | positive =>
        cases sign' with
        | positive =>
          refine congrArg some ?_
          simpa using hrx.compare_magnitudes hry
        | negative =>
          refine congrArg some (compare_gt_iff_gt.mpr ?_).symm
          simp only [exactParts_finite, signFactor_positive, signFactor_negative]
          linarith
      | negative =>
        cases sign' with
        | positive =>
          refine congrArg some (compare_lt_iff_lt.mpr ?_).symm
          simp only [exactParts_finite, signFactor_positive, signFactor_negative]
          linarith
        | negative =>
          refine congrArg some ?_
          rw [exactParts_finite, exactParts_finite, signFactor_negative, neg_one_mul, neg_one_mul]
          exact (congrArg Ordering.swap (hrx.compare_magnitudes hry)).trans (compare_neg _ _).symm

section

variable {a b : Float}

theorem isFinite_eq_unpack (a : Float) : a.isFinite = a.toModel.unpack.isFinite :=
  rfl

theorem compare?_eq_compare (a b : Float) :
    compare? a b = a.toModel.unpack.compare b.toModel.unpack :=
  rfl

theorem compare?_eq_exact (ha : a.isFinite = true) (hb : b.isFinite = true) :
    compare? a b = some (compare (exact a) (exact b)) :=
  compare_exactParts ha hb (rounded_unpack _) (rounded_unpack _)

theorem lt_iff_exact (ha : a.isFinite = true) (hb : b.isFinite = true) :
    a < b ↔ exact a < exact b := by
  rw [lt_iff, compare?_eq_exact ha hb, Option.some.injEq, compare_lt_iff_lt]

theorem le_iff_exact (ha : a.isFinite = true) (hb : b.isFinite = true) :
    a ≤ b ↔ exact a ≤ exact b := by
  rw [le_iff, compare?_eq_exact ha hb, Option.some.injEq, Option.some.injEq, compare_lt_iff_lt,
    compare_eq_iff_eq, le_iff_lt_or_eq]

end

end FactScore.Number
