import FactScore.Proofs.Number.Exact

/-!
# Rounding of exact values

Rounding takes an exact value to a mantissa of at most 53 bits: it is scaled so that the bits which
are kept stand before the point (`Number.gridExponent`), and then rounded to the nearest integer,
the even one of two (`Number.roundedMagnitude`).  The bits that are shifted out of a mantissa leave
only two residual bits behind, but these tell all that rounding needs to know of them
(`Number.Represents`), so that the rounding of numbers is this one
(`Number.roundWithAccuracy_spec`).  It keeps the order of exact values
(`Number.roundedMagnitude_mono`).
-/

namespace FactScore.Number

open Float.Model Float.Model.UnpackedFloat

section Nearest

/-- The integer that is nearest, the even one of two. -/
def nearestEven (x : ℚ) : ℤ :=
  if Int.fract x < 1 / 2 then ⌊x⌋
  else if 1 / 2 < Int.fract x then ⌊x⌋ + 1
  else ⌊x⌋ + ⌊x⌋ % 2

variable {x y : ℚ}

theorem floor_le_nearestEven (x : ℚ) : ⌊x⌋ ≤ nearestEven x := by
  have hparity := Int.emod_nonneg ⌊x⌋ two_ne_zero
  unfold nearestEven
  split_ifs <;> omega

theorem nearestEven_le_floor_add_one (x : ℚ) : nearestEven x ≤ ⌊x⌋ + 1 := by
  have hparity := Int.emod_lt_of_pos ⌊x⌋ two_pos
  unfold nearestEven
  split_ifs <;> omega

@[simp] theorem nearestEven_intCast (n : ℤ) : nearestEven n = n := by
  simp [nearestEven]

theorem nearestEven_mono (h : x ≤ y) : nearestEven x ≤ nearestEven y := by
  rcases (Int.floor_mono h).lt_or_eq with hlt | heq
  · calc nearestEven x ≤ ⌊x⌋ + 1 := nearestEven_le_floor_add_one x
      _ ≤ ⌊y⌋ := hlt
      _ ≤ nearestEven y := floor_le_nearestEven y
  · -- between the same two integers, only the fractions count
    have hfract : Int.fract x ≤ Int.fract y := by
      unfold Int.fract
      rw [heq]
      linarith
    rcases lt_or_ge (Int.fract x) (1 / 2) with hlow | hhigh
    · calc nearestEven x = ⌊x⌋ := if_pos hlow
        _ = ⌊y⌋ := heq
        _ ≤ nearestEven y := floor_le_nearestEven y
    · rcases hfract.eq_or_lt with hsame | hless
      · unfold nearestEven
        rw [heq, hsame]
      · have hup : nearestEven y = ⌊y⌋ + 1 := by
          unfold nearestEven
          rw [if_neg (by linarith), if_pos (by linarith)]
        rw [hup, ← heq]
        exact nearestEven_le_floor_add_one x

end Nearest

section Bits

/-- A mantissa and its residual bits tell an exact value as far as rounding needs to know it. -/
structure Represents (em : ExtendedMantissa) (x : ℚ) : Prop where
  le : (em.mantissa : ℚ) ≤ x
  lt : x < em.mantissa + 1
  round_iff : em.roundBit = true ↔ (em.mantissa : ℚ) + 1 / 2 ≤ x
  sticky_iff : em.stickyBit = true ↔ x ≠ em.mantissa ∧ x ≠ em.mantissa + 1 / 2

namespace Represents

variable {em : ExtendedMantissa} {x : ℚ}

theorem floor_eq (h : Represents em x) : ⌊x⌋ = em.mantissa :=
  Int.floor_eq_iff.mpr ⟨by exact_mod_cast h.le, by exact_mod_cast h.lt⟩

/-- Some residual bit is set if anything is left behind the mantissa. -/
theorem inexact_iff (h : Represents em x) :
    (em.roundBit || em.stickyBit) = true ↔ x ≠ em.mantissa := by
  rw [Bool.or_eq_true, h.round_iff, h.sticky_iff]
  constructor
  · rintro (hround | ⟨hne, _⟩)
    · intro heq
      linarith
    · exact hne
  · intro hne
    by_cases htie : x = em.mantissa + 1 / 2
    · exact .inl htie.ge
    · exact .inr ⟨hne, htie⟩

/-- Shifting by one place halves the value. -/
theorem shiftRightOne (h : Represents em x) : Represents em.shiftRightOne (x / 2) := by
  have hle := h.le
  have hlt := h.lt
  have hinexact := h.inexact_iff
  have hmantissa : (em.mantissa : ℚ) = 2 * (em.mantissa / 2 : ℕ) + (em.mantissa % 2 : ℕ) := by
    exact_mod_cast (Nat.div_add_mod em.mantissa 2).symm
  have hnext : em.shiftRightOne =
      ⟨em.mantissa / 2, em.mantissa % 2 != 0, em.roundBit || em.stickyBit⟩ := rfl
  rw [hnext]
  generalize em.mantissa / 2 = half at hmantissa ⊢
  rcases Nat.mod_two_eq_zero_or_one em.mantissa with heven | hodd
  · rw [heven] at hmantissa ⊢
    rw [hmantissa] at hle hlt hinexact
    push_cast at hle hlt hinexact
    refine ⟨by linarith, by linarith, ?_, ?_⟩
    · simp only [bne_self_eq_false, Bool.false_eq_true, false_iff, not_le]
      linarith
    · rw [hinexact]
      constructor
      · intro hne
        exact ⟨fun heq => hne (by linarith), by linarith⟩
      · rintro ⟨hne, _⟩ heq
        exact hne (by linarith)
  · rw [hodd] at hmantissa ⊢
    rw [hmantissa] at hle hlt hinexact
    push_cast at hle hlt hinexact
    refine ⟨by linarith, by linarith, ?_, ?_⟩
    · simp only [bne_iff_ne, ne_eq, one_ne_zero, not_false_eq_true, true_iff]
      linarith
    · rw [hinexact]
      constructor
      · intro hne
        exact ⟨by linarith, fun heq => hne (by linarith)⟩
      · rintro ⟨_, hne⟩ heq
        exact hne (by linarith)

theorem shiftRight (h : Represents em x) (n : ℕ) : Represents (em >>> n) (x / 2 ^ n) := by
  change Represents (Nat.repeat ExtendedMantissa.shiftRightOne n em) _
  induction n with
  | zero => simpa [Nat.repeat] using h
  | succ n ih =>
    rw [Nat.repeat, pow_succ, ← div_div]
    exact ih.shiftRightOne

theorem roundedMantissa_eq (h : Represents em x) : (em.roundedMantissa : ℤ) = nearestEven x := by
  have hfloor := h.floor_eq
  obtain ⟨hle, hlt, hround, hsticky⟩ := h
  have hfract : Int.fract x = x - em.mantissa := by
    rw [Int.fract, hfloor]
    rfl
  unfold nearestEven
  rw [hfract, hfloor]
  obtain ⟨m, round, sticky⟩ := em
  simp only at hle hlt hround hsticky ⊢
  cases round with
  | false =>
    have hbelow : x - m < 1 / 2 := by
      simp only [Bool.false_eq_true, false_iff, not_le] at hround
      linarith
    rw [if_pos hbelow]
    cases sticky <;> rfl
  | true =>
    have habove : m + 1 / 2 ≤ x := hround.mp rfl
    rw [if_neg (by linarith)]
    cases sticky with
    | false =>
      have htie : x = m + 1 / 2 := by
        by_contra hne
        have hset := hsticky.mpr ⟨by linarith, hne⟩
        cases hset
      rw [if_neg (by linarith)]
      simp [ExtendedMantissa.roundedMantissa, ExtendedMantissa.accuracy,
        Accuracy.roundToNearestEven]
    | true =>
      have hne : x ≠ m + 1 / 2 := (hsticky.mp rfl).2
      have hlt' : m + 1 / 2 < x := lt_of_le_of_ne habove hne.symm
      rw [if_pos (by linarith)]
      simp [ExtendedMantissa.roundedMantissa, ExtendedMantissa.accuracy,
        Accuracy.roundToNearestEven]

end Represents

/-- The accuracy of a fraction tells what is left behind the mantissa. -/
theorem represents_fraction (m : ℕ) {num den : ℕ} (h : num < den) :
    Represents (.ofMantissaAndAccuracy m (accuracyOfFraction num den)) (m + num / den) := by
  have hden : (0 : ℚ) < den := Nat.cast_pos.mpr (Nat.zero_lt_of_lt h)
  have hlt : (num : ℚ) / den < 1 := (div_lt_one hden).mpr (Nat.cast_lt.mpr h)
  unfold accuracyOfFraction
  split
  next hnum =>
    subst hnum
    constructor <;> simp [ExtendedMantissa.ofMantissaAndAccuracy]
  next hnum =>
    have hpos : (0 : ℚ) < num / den := div_pos (Nat.cast_pos.mpr (Nat.pos_of_ne_zero hnum)) hden
    cases horder : compare (2 * num) den with
    | lt =>
      have hhalf : (num : ℚ) / den < 1 / 2 := by
        have hdouble : (2 * num : ℚ) < den := by exact_mod_cast compare_lt_iff_lt.mp horder
        rw [div_lt_iff₀ hden]
        linarith
      constructor <;> simp only [ExtendedMantissa.ofMantissaAndAccuracy]
      · linarith
      · linarith
      · simp only [Bool.false_eq_true, false_iff, not_le]
        linarith
      · simp only [true_iff]
        exact ⟨by linarith, by linarith⟩
    | eq =>
      have hhalf : (num : ℚ) / den = 1 / 2 := by
        have hdouble : (2 * num : ℚ) = den := by exact_mod_cast compare_eq_iff_eq.mp horder
        rw [div_eq_iff hden.ne']
        linarith
      constructor <;> simp only [ExtendedMantissa.ofMantissaAndAccuracy, hhalf]
      · linarith
      · linarith
      · simp
      · simp
    | gt =>
      have hhalf : 1 / 2 < (num : ℚ) / den := by
        have hdouble : (den : ℚ) < 2 * num := by exact_mod_cast compare_gt_iff_gt.mp horder
        rw [lt_div_iff₀ hden]
        linarith
      constructor <;> simp only [ExtendedMantissa.ofMantissaAndAccuracy]
      · linarith
      · linarith
      · simp only [true_iff]
        linarith
      · simp only [true_iff]
        exact ⟨by linarith, by linarith⟩

end Bits

section Grid

/-- The exponent that a positive exact value is rounded at. -/
def gridExponent (x : ℚ) : ℤ :=
  max (Int.log 2 x - 52) (-1074)

/-- A positive exact value rounded. -/
def roundedMagnitude (x : ℚ) : ℚ :=
  nearestEven (x / 2 ^ gridExponent x) * 2 ^ gridExponent x

variable {x y : ℚ}

theorem lt_two_pow_gridExponent (x : ℚ) : x < 2 ^ (gridExponent x + 53) := by
  refine (Int.lt_zpow_succ_log_self (b := 2) (by norm_num) x).trans_le ?_
  refine zpow_le_zpow_right₀ (by norm_num) ?_
  unfold gridExponent
  omega

theorem two_pow_gridExponent_le (hx : 0 < x) (h : -1074 < gridExponent x) :
    2 ^ (gridExponent x + 52) ≤ x := by
  have hlog : gridExponent x + 52 = Int.log 2 x := by
    unfold gridExponent at h ⊢
    omega
  rw [hlog]
  exact_mod_cast Int.zpow_log_le_self (b := 2) (by norm_num) hx

theorem nearestEven_nonneg (hx : 0 ≤ x) : 0 ≤ nearestEven x :=
  (Int.floor_nonneg.mpr hx).trans (floor_le_nearestEven x)

/-- The mantissa has at most one bit too many. -/
theorem nearestEven_grid_le (x : ℚ) : nearestEven (x / 2 ^ gridExponent x) ≤ 2 ^ 53 := by
  have hlt : x / 2 ^ gridExponent x < (2 ^ 53 : ℤ) := by
    rw [div_lt_iff₀ (by positivity)]
    refine (lt_two_pow_gridExponent x).trans_eq ?_
    rw [add_comm, zpow_add₀ two_ne_zero]
    norm_cast
  exact (nearestEven_le_floor_add_one _).trans (Int.floor_lt.mpr hlt)

/-- The mantissa has all its bits, except with the least exponent. -/
theorem le_nearestEven_grid (hx : 0 < x) (h : -1074 < gridExponent x) :
    2 ^ 52 ≤ nearestEven (x / 2 ^ gridExponent x) := by
  refine le_trans (Int.le_floor.mpr ?_) (floor_le_nearestEven _)
  rw [le_div_iff₀ (by positivity)]
  refine le_trans (le_of_eq ?_) (two_pow_gridExponent_le hx h)
  rw [add_comm, zpow_add₀ two_ne_zero]
  norm_cast

@[simp] theorem roundedMagnitude_zero : roundedMagnitude 0 = 0 := by
  have hzero : nearestEven 0 = 0 := nearestEven_intCast 0
  simp [roundedMagnitude, hzero]

theorem roundedMagnitude_nonneg (hx : 0 ≤ x) : 0 ≤ roundedMagnitude x := by
  have hmantissa : (0 : ℚ) ≤ nearestEven (x / 2 ^ gridExponent x) := by
    exact_mod_cast nearestEven_nonneg (by positivity)
  unfold roundedMagnitude
  positivity

/-- Rounding keeps the order: where the exponent changes, the power of two in between bounds both
    sides. -/
theorem roundedMagnitude_mono (hx : 0 ≤ x) (h : x ≤ y) :
    roundedMagnitude x ≤ roundedMagnitude y := by
  rcases hx.eq_or_lt with rfl | hx
  · rw [roundedMagnitude_zero]
    exact roundedMagnitude_nonneg h
  have hgrid : gridExponent x ≤ gridExponent y :=
    max_le_max_right _ (Int.sub_le_sub_right (Int.log_mono_right hx h) _)
  unfold roundedMagnitude
  rcases hgrid.eq_or_lt with heq | hlt
  · rw [heq]
    gcongr
    exact nearestEven_mono (by gcongr)
  · have hupper : (nearestEven (x / 2 ^ gridExponent x) : ℚ) ≤ 2 ^ (53 : ℤ) := by
      exact_mod_cast nearestEven_grid_le x
    have hlower : (2 : ℚ) ^ (52 : ℤ) ≤ nearestEven (y / 2 ^ gridExponent y) := by
      have hleast : -1074 ≤ gridExponent x := le_max_right _ _
      exact_mod_cast le_nearestEven_grid (hx.trans_le h) (hleast.trans_lt hlt)
    calc nearestEven (x / 2 ^ gridExponent x) * (2 : ℚ) ^ gridExponent x
      _ ≤ 2 ^ (53 : ℤ) * 2 ^ gridExponent x := by gcongr
      _ = 2 ^ (53 + gridExponent x) := (zpow_add₀ two_ne_zero _ _).symm
      _ ≤ 2 ^ (52 + gridExponent y) := zpow_le_zpow_right₀ one_le_two (by omega)
      _ = 2 ^ (52 : ℤ) * 2 ^ gridExponent y := zpow_add₀ two_ne_zero _ _
      _ ≤ nearestEven (y / 2 ^ gridExponent y) * 2 ^ gridExponent y := by gcongr

end Grid

section Parts

variable {sign : Sign} {m : ℕ} {e : ℤ} {accuracy : Accuracy} {x : ℚ}

/-- A mantissa with enough bits, or with an exponent that is small enough, tells the exponent to
    round at. -/
theorem gridExponent_eq (hle : (m : ℚ) ≤ x) (hlt : x < m + 1) (hx : 0 < x)
    (he : 52 ≤ m.log2 ∨ e ≤ -1074) :
    gridExponent (x * 2 ^ e) = max (m.log2 + e - 52) (-1074) := by
  have hpow : (0 : ℚ) < 2 ^ e := by positivity
  have hpos : 0 < x * 2 ^ e := by positivity
  rcases Nat.eq_zero_or_pos m with rfl | hm
  · have hlog : Int.log 2 (x * 2 ^ e) < e := by
      refine (Int.lt_zpow_iff_log_lt (by norm_num) hpos).mp ?_
      norm_num at hlt ⊢
      nlinarith
    have hleast : e ≤ -1074 := he.resolve_left (by simp)
    rw [gridExponent, Nat.log2_zero]
    omega
  · have hlog : Int.log 2 (x * 2 ^ e) = m.log2 + e := by
      refine le_antisymm (Int.lt_add_one_iff.mp ?_) ?_
      · refine (Int.lt_zpow_iff_log_lt (by norm_num) hpos).mp ?_
        have hupper : (m : ℚ) + 1 ≤ 2 ^ ((m.log2 : ℤ) + 1) := by
          exact_mod_cast Nat.lt_log2_self (n := m)
        push_cast
        rw [add_right_comm, zpow_add₀ two_ne_zero (_ + 1)]
        exact mul_lt_mul_of_pos_right (hlt.trans_le hupper) hpow
      · refine (Int.zpow_le_iff_le_log (by norm_num) hpos).mp ?_
        have hlower : (2 : ℚ) ^ (m.log2 : ℤ) ≤ m := by
          exact_mod_cast Nat.log2_self_le hm.ne'
        push_cast
        rw [zpow_add₀ two_ne_zero]
        exact mul_le_mul_of_nonneg_right (hlower.trans hle) hpow.le
    rw [gridExponent, hlog]

theorem shiftToTargetExponent_of_lt {r : ℕ} {t : ℤ} (hr : r < 2 ^ 53) (ht : -1074 ≤ t) :
    shiftToTargetExponent .binary64 r t .exact = (.mk r false false, t) := by
  have hlog : r.log2 ≤ 52 := by
    rcases Nat.eq_zero_or_pos r with rfl | hpos
    · simp
    · exact Nat.lt_succ_iff.mp ((Nat.log2_lt hpos.ne').mpr hr)
  have hshift : (Format.binary64.targetExponent (totalExponent r t) - t).toNat = 0 := by
    rw [targetExponent_eq]
    omega
  simp only [shiftToTargetExponent, shiftToExponent, hshift]
  exact Prod.ext rfl (by simp)

/-- A mantissa that rounding has carried over to one bit more is halved. -/
theorem shiftToTargetExponent_carry {t : ℤ} (ht : -1074 ≤ t) :
    shiftToTargetExponent .binary64 (2 ^ 53) t .exact = (.mk (2 ^ 52) false false, t + 1) := by
  have hshift : (Format.binary64.targetExponent (totalExponent (2 ^ 53) t) - t).toNat = 1 := by
    rw [targetExponent_eq, Nat.log2_two_pow]
    omega
  simp only [shiftToTargetExponent, shiftToExponent, hshift]
  rfl

theorem rounded_finite {r : ℕ} {t : ℤ} (hr : r < 2 ^ 53) (hpos : 0 < r) (ht : -1074 ≤ t)
    (hbits : -1074 < t → 2 ^ 52 ≤ r) : Rounded (.finite sign r t hpos) := by
  have hlog : r.log2 < 53 := (Nat.log2_lt hpos.ne').mpr hr
  rcases ht.eq_or_lt with rfl | hlt
  · simp only [Rounded]
    omega
  · have hfull : 52 ≤ r.log2 := (Nat.le_log2 hpos.ne').mpr (hbits hlt)
    simp only [Rounded]
    omega

/-- The first shift leaves the bits that are kept, and where they stand. -/
theorem shiftToTargetExponent_spec (h : Represents (.ofMantissaAndAccuracy m accuracy) x)
    (hx : 0 < x) (he : 52 ≤ m.log2 ∨ e ≤ -1074) :
    ∃ em, shiftToTargetExponent .binary64 m e accuracy = (em, gridExponent (x * 2 ^ e)) ∧
      (em.roundedMantissa : ℤ) = nearestEven (x * 2 ^ e / 2 ^ gridExponent (x * 2 ^ e)) := by
  have hmantissa : (ExtendedMantissa.ofMantissaAndAccuracy m accuracy).mantissa = m := by
    cases accuracy with
    | exact => rfl
    | inexact order => cases order <;> rfl
  have hgrid : gridExponent (x * 2 ^ e) = max (m.log2 + e - 52) (-1074) :=
    gridExponent_eq (hmantissa ▸ h.le) (hmantissa ▸ h.lt) hx he
  obtain ⟨k, hk⟩ : ∃ k : ℕ, (k : ℤ) = gridExponent (x * 2 ^ e) - e :=
    ⟨_, Int.toNat_of_nonneg (by omega)⟩
  have hshift : (gridExponent (x * 2 ^ e) - e).toNat = k := by omega
  have hsplit : gridExponent (x * 2 ^ e) = e + k := by omega
  have hscaled : x * 2 ^ e / 2 ^ gridExponent (x * 2 ^ e) = x / 2 ^ k := by
    rw [hsplit, zpow_add₀ two_ne_zero, zpow_natCast]
    field_simp
  refine ⟨ExtendedMantissa.ofMantissaAndAccuracy m accuracy >>> k, ?_, ?_⟩
  · simp only [shiftToTargetExponent, shiftToExponent, targetExponent_eq, ← hgrid, hshift]
    rw [← hsplit]
  · rw [hscaled]
    exact (h.shiftRight k).roundedMantissa_eq

/-- After the mantissa is rounded, nothing is lost any more. -/
theorem roundWithAccuracy_of_shift {em : ExtendedMantissa} {t : ℤ}
    (hfirst : shiftToTargetExponent .binary64 m e accuracy = (em, t))
    (hr : em.roundedMantissa ≤ 2 ^ 53) (ht : -1074 ≤ t)
    (hbits : -1074 < t → 2 ^ 52 ≤ em.roundedMantissa) :
    exactParts (roundWithAccuracy .binary64 sign m e accuracy) =
        signFactor sign * (em.roundedMantissa * 2 ^ t) ∧
      (roundWithAccuracy .binary64 sign m e accuracy).isFinite = true ∧
      Rounded (roundWithAccuracy .binary64 sign m e accuracy) := by
  unfold roundWithAccuracy
  rcases hr.lt_or_eq with hlt | heq
  · simp only [hfirst, shiftToTargetExponent_of_lt hlt ht]
    split
    next hzero => exact ⟨by simp [hzero], rfl, trivial⟩
    next hzero => exact ⟨rfl, rfl, rounded_finite hlt _ ht hbits⟩
  · simp only [hfirst, heq, shiftToTargetExponent_carry ht]
    have hnonzero : ¬2 ^ 52 = 0 := by norm_num
    rw [dif_neg hnonzero]
    refine ⟨?_, rfl, rounded_finite (by norm_num) _ (by omega) fun _ => le_rfl⟩
    have hcarry : (2 : ℚ) ^ (t + 1) = 2 * 2 ^ t := by
      rw [add_comm, zpow_add₀ two_ne_zero, zpow_one]
    rw [exactParts_finite, hcarry]
    push_cast
    ring

/-- Rounding the parts of a number rounds what they represent. -/
theorem roundWithAccuracy_spec (sign : Sign) (h : Represents (.ofMantissaAndAccuracy m accuracy) x)
    (hx : 0 < x) (he : 52 ≤ m.log2 ∨ e ≤ -1074) :
    exactParts (roundWithAccuracy .binary64 sign m e accuracy) =
        signFactor sign * roundedMagnitude (x * 2 ^ e) ∧
      (roundWithAccuracy .binary64 sign m e accuracy).isFinite = true ∧
      Rounded (roundWithAccuracy .binary64 sign m e accuracy) := by
  have hpos : 0 < x * 2 ^ e := by positivity
  obtain ⟨em, hfirst, hr⟩ := shiftToTargetExponent_spec h hx he
  have hupper := nearestEven_grid_le (x * 2 ^ e)
  have hlower := le_nearestEven_grid hpos
  rw [← hr] at hupper hlower
  have hmagnitude : roundedMagnitude (x * 2 ^ e) =
      em.roundedMantissa * 2 ^ gridExponent (x * 2 ^ e) := by
    rw [roundedMagnitude, ← hr, Int.cast_natCast]
  rw [hmagnitude]
  exact roundWithAccuracy_of_shift hfirst (by exact_mod_cast hupper) (le_max_right _ _)
    fun ht => by exact_mod_cast hlower ht

end Parts

end FactScore.Number
