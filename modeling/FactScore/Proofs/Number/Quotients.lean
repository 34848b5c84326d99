import FactScore.Proofs.Number.Rounding

/-!
# Quotients of numbers

Packing a number keeps it, unless it is too large and becomes infinite.  So the quotient of two
finite numbers is the exact quotient rounded (`Number.roundsTo_div`), where what is rounded above
all finite numbers is infinite (`Number.RoundsTo`), and magnitudes of quotients compare as exact
ones do (`Number.RoundsTo.abs_le`).
-/

namespace FactScore.Number

open Float.Model Float.Model.UnpackedFloat

section Packing

variable {sign : Sign} {m : ℕ} {e : ℤ} {hm : 0 < m}

theorem abs_exactParts_finite : |exactParts (.finite sign m e hm)| = m * 2 ^ e := by
  have hpos := magnitude_pos hm e
  cases sign <;> simp [abs_of_pos hpos]

/-- A finite number is below the power of two at which the exponents end. -/
theorem exponent_le_iff (h : Rounded (.finite sign m e hm)) :
    e ≤ 971 ↔ (m : ℚ) * 2 ^ e < 2 ^ 1024 := by
  have hm53 : (m : ℚ) < 2 ^ (53 : ℤ) := by exact_mod_cast h.mantissa_lt
  constructor
  · intro he
    calc (m : ℚ) * 2 ^ e < 2 ^ (53 : ℤ) * 2 ^ e := by gcongr
      _ = 2 ^ (53 + e) := (zpow_add₀ two_ne_zero _ _).symm
      _ ≤ 2 ^ (1024 : ℤ) := zpow_le_zpow_right₀ one_le_two (by omega)
      _ = 2 ^ 1024 := zpow_natCast _ _
  · intro hlt
    by_contra he
    have hm52 : (2 : ℚ) ^ (52 : ℤ) ≤ m := by exact_mod_cast h.le_mantissa (by omega)
    refine hlt.not_ge ?_
    calc (2 : ℚ) ^ 1024 = 2 ^ (1024 : ℤ) := (zpow_natCast _ _).symm
      _ ≤ 2 ^ (52 + e) := zpow_le_zpow_right₀ one_le_two (by omega)
      _ = 2 ^ (52 : ℤ) * 2 ^ e := zpow_add₀ two_ne_zero _ _
      _ ≤ m * 2 ^ e := by gcongr

theorem unpack_pack_normal (hm53 : m < 2 ^ 53) (hm52 : 2 ^ 52 ≤ m) (he : -1074 ≤ e)
    (he' : e ≤ 971) :
    UnpackedFloat.unpack .binary64 (UnpackedFloat.pack .binary64 (.finite sign m e hm)) =
      .finite sign m e hm := by
  have hlog : m.log2 + 1 = Format.binary64.mantissaBits := by
    have hlog52 : m.log2 = 52 := (Nat.log2_eq_iff hm.ne').mpr ⟨hm52, hm53⟩
    rw [hlog52]
    rfl
  have hbias : (Format.binary64.exponentBias : ℤ) = 1023 := rfl
  obtain ⟨biased, hbiased⟩ : ∃ biased : ℕ, (biased : ℤ) = e + 1075 :=
    ⟨_, Int.toNat_of_nonneg (by omega)⟩
  have hsum : (e + Format.binary64.exponentBias + (52 : ℕ)).toNat = biased := by
    rw [hbias]
    omega
  have hexponent : (BitVec.ofNat 11 biased).toNat = biased := by
    rw [BitVec.toNat_ofNat, Nat.mod_eq_of_lt (by omega)]
  have hmantissa : (1#1 ++ BitVec.ofNat 52 m).toNat = m := by
    rw [toNat_leading_append, BitVec.toNat_ofNat, Nat.mod_eq_sub_mod hm52,
      Nat.mod_eq_of_lt (by omega)]
    omega
  have hnotTop : ¬BitVec.ofNat 11 biased = -1#11 := by
    intro heq
    have htop := congrArg BitVec.toNat heq
    rw [hexponent] at htop
    change biased = 2047 at htop
    omega
  have hnotZero : ¬BitVec.ofNat 11 biased = 0#11 := by
    intro heq
    have hzero := congrArg BitVec.toNat heq
    rw [hexponent] at hzero
    change biased = 0 at hzero
    omega
  simp only [UnpackedFloat.pack, hsum]
  rw [if_neg (by omega), if_pos hlog]
  simp only [UnpackedFloat.unpack, unpackExponent_packComponents, unpackMantissa_packComponents,
    unpackSign_packComponents, Sign.ofBitVec_toBitVec]
  rw [if_neg hnotTop, if_neg hnotZero]
  simp only [hmantissa, hexponent, hbias]
  congr 1
  omega

theorem unpack_pack_subnormal (hm52 : m < 2 ^ 52) :
    UnpackedFloat.unpack .binary64 (UnpackedFloat.pack .binary64 (.finite sign m (-1074) hm)) =
      .finite sign m (-1074) hm := by
  have hlog : ¬m.log2 + 1 = Format.binary64.mantissaBits := by
    have hlog52 : m.log2 < 52 := (Nat.log2_lt hm.ne').mpr hm52
    change ¬m.log2 + 1 = 53
    omega
  have hmantissa : (BitVec.ofNat 52 m).toNat = m := by
    rw [BitVec.toNat_ofNat, Nat.mod_eq_of_lt hm52]
  have hnotZero : ¬BitVec.ofNat 52 m = 0#52 := by
    intro heq
    have hzero := congrArg BitVec.toNat heq
    rw [hmantissa] at hzero
    change m = 0 at hzero
    omega
  have hsum :
      ¬2 ^ 11 ≤ ((-1074 : ℤ) + Format.binary64.exponentBias + (52 : ℕ)).toNat + 1 := by
    decide
  simp only [UnpackedFloat.pack]
  rw [if_neg hsum, if_neg hlog]
  simp only [UnpackedFloat.unpack, unpackExponent_packComponents, unpackMantissa_packComponents,
    unpackSign_packComponents, Sign.ofBitVec_toBitVec]
  rw [if_neg (by decide), if_pos trivial, dif_neg hnotZero]
  simp only [hmantissa]
  rfl

/-- What is finite and rounded is kept as it is, as long as it is not too large. -/
theorem unpack_pack_of_lt {u : UnpackedFloat} (hfinite : u.isFinite = true) (h : Rounded u)
    (hlt : |exactParts u| < 2 ^ 1024) :
    UnpackedFloat.unpack .binary64 (UnpackedFloat.pack .binary64 u) = u := by
  cases u with
  | notANumber | infinity => cases hfinite
  | zero sign => exact unpack_packedZero
  | finite sign m e hm =>
    rw [abs_exactParts_finite, ← exponent_le_iff h] at hlt
    by_cases hm52 : 2 ^ 52 ≤ m
    · exact unpack_pack_normal h.mantissa_lt hm52 h.le_exponent hlt
    · obtain rfl : e = -1074 := by
        refine le_antisymm (not_lt.mp fun he => hm52 (h.le_mantissa he)) h.le_exponent
      exact unpack_pack_subnormal (not_le.mp hm52)

/-- What is too large becomes infinite. -/
theorem unpack_pack_of_le (h : Rounded (.finite sign m e hm)) (hle : 2 ^ 1024 ≤ (m : ℚ) * 2 ^ e) :
    UnpackedFloat.unpack .binary64 (UnpackedFloat.pack .binary64 (.finite sign m e hm)) =
      .infinity sign := by
  have he : 971 < e := not_le.mp fun he => hle.not_gt ((exponent_le_iff h).mp he)
  have hbias : (Format.binary64.exponentBias : ℤ) = 1023 := rfl
  simp only [UnpackedFloat.pack]
  rw [if_pos (by rw [hbias]; omega)]
  simp [UnpackedFloat.unpack, packedInfinity]

end Packing


section Signs

variable {x : Float}

/-- Numbers are below the power of two at which the exponents end. -/
theorem magnitude_lt_of_unpack {sign : Sign} {m : ℕ} {e : ℤ} {hm : 0 < m}
    (h : x.toModel.unpack = .finite sign m e hm) : (m : ℚ) * 2 ^ e < 2 ^ 1024 := by
  by_contra hlarge
  have hrounded : Rounded x.toModel.unpack := rounded_unpack _
  rw [h] at hrounded
  have hbits : UnpackedFloat.pack .binary64 (.finite sign m e hm) =
      x.toModel.toBits.toBitVec := by
    rw [← h]
    exact pack_unpack_of_valid x.toModel.valid
  have hinfinite := unpack_pack_of_le hrounded (not_lt.mp hlarge)
  rw [hbits] at hinfinite
  cases h.symm.trans hinfinite

/-- The other sign makes for another number, with the same mantissa and exponent. -/
theorem unpack_pack_of_unpack {sign : Sign} {m : ℕ} {e : ℤ} {hm : 0 < m}
    (h : x.toModel.unpack = .finite sign m e hm) (sign' : Sign) :
    UnpackedFloat.unpack .binary64 (UnpackedFloat.pack .binary64 (.finite sign' m e hm)) =
      .finite sign' m e hm := by
  have hrounded : Rounded x.toModel.unpack := rounded_unpack _
  rw [h] at hrounded
  refine unpack_pack_of_lt rfl hrounded ?_
  rw [abs_exactParts_finite]
  exact magnitude_lt_of_unpack h

theorem unpack_abs (x : Float) : x.abs.toModel.unpack = x.toModel.unpack.abs := by
  change UnpackedFloat.unpack .binary64 (UnpackedFloat.pack .binary64 x.toModel.unpack.abs) = _
  cases h : x.toModel.unpack with
  | notANumber => exact unpack_packedNaN
  | infinity sign => cases sign <;> rfl
  | zero sign => exact unpack_packedZero
  | finite sign m e hm => exact unpack_pack_of_unpack h _

theorem unpack_neg (x : Float) : (-x).toModel.unpack = x.toModel.unpack.neg := by
  change UnpackedFloat.unpack .binary64 (UnpackedFloat.pack .binary64 x.toModel.unpack.neg) = _
  cases h : x.toModel.unpack with
  | notANumber => exact unpack_packedNaN
  | infinity sign => cases sign <;> rfl
  | zero sign => exact unpack_packedZero
  | finite sign m e hm => exact unpack_pack_of_unpack h _

theorem exactParts_abs (u : UnpackedFloat) : exactParts u.abs = |exactParts u| := by
  cases u with
  | notANumber | infinity | zero => simp [exactParts, UnpackedFloat.abs]
  | finite sign m e hm =>
    rw [abs_exactParts_finite]
    simp [UnpackedFloat.abs]

theorem exactParts_neg (u : UnpackedFloat) : exactParts u.neg = -exactParts u := by
  cases u with
  | notANumber | infinity | zero => simp [exactParts, UnpackedFloat.neg]
  | finite sign m e hm => simp [UnpackedFloat.neg]

theorem exact_abs (x : Float) : exact x.abs = |exact x| := by
  rw [exact, unpack_abs, exactParts_abs, exact]

theorem exact_neg (x : Float) : exact (-x) = -exact x := by
  rw [exact, unpack_neg, exactParts_neg, exact]

@[simp] theorem isFinite_abs (x : Float) : x.abs.isFinite = x.isFinite := by
  rw [isFinite_eq_unpack, isFinite_eq_unpack, unpack_abs]
  cases x.toModel.unpack <;> rfl

@[simp] theorem isFinite_neg (x : Float) : (-x).isFinite = x.isFinite := by
  rw [isFinite_eq_unpack, isFinite_eq_unpack, unpack_neg]
  cases x.toModel.unpack <;> rfl

end Signs

section Division

section Mantissas

variable {m₁ m₂ : ℕ}

/-- What is left of the division tells the exact quotient. -/
theorem cast_quotient (m₁ k : ℕ) (hm₂ : 0 < m₂) :
    ((m₁ <<< k / m₂ : ℕ) : ℚ) + (m₁ <<< k % m₂ : ℕ) / m₂ = m₁ * 2 ^ k / m₂ := by
  have hdivisor : (m₂ : ℚ) ≠ 0 := Nat.cast_ne_zero.mpr hm₂.ne'
  have hdivMod : (m₂ * (m₁ <<< k / m₂ : ℕ) + (m₁ <<< k % m₂ : ℕ) : ℚ) = m₁ * 2 ^ k := by
    rw [← Nat.cast_mul, ← Nat.cast_add, Nat.div_add_mod, Nat.shiftLeft_eq]
    push_cast
    rfl
  rw [← hdivMod]
  field_simp

theorem le_quotient (k : ℕ) (hm₁ : 0 < m₁) (hm₂ : 0 < m₂)
    (hbits : 53 + m₂.log2 ≤ k + m₁.log2) : 2 ^ 52 ≤ m₁ <<< k / m₂ := by
  rw [Nat.le_div_iff_mul_le hm₂, Nat.shiftLeft_eq]
  calc 2 ^ 52 * m₂ ≤ 2 ^ 52 * 2 ^ (m₂.log2 + 1) := by
        gcongr
        exact Nat.lt_log2_self.le
    _ = 2 ^ (53 + m₂.log2) := by ring
    _ ≤ 2 ^ (k + m₁.log2) := Nat.pow_le_pow_right two_pos hbits
    _ = 2 ^ m₁.log2 * 2 ^ k := by ring
    _ ≤ m₁ * 2 ^ k := by
        gcongr
        exact Nat.log2_self_le hm₁.ne'

theorem targetExponent_sub (m₁ m₂ : ℕ) (e₁ e₂ : ℤ) :
    Format.binary64.targetExponent (totalExponent m₁ e₁ - totalExponent m₂ e₂) =
      max (m₁.log2 + e₁ - (m₂.log2 + e₂) - 53) (-1074) := by
  have hbits : (Format.binary64.mantissaBits : ℤ) = 53 := rfl
  have hleast : Format.binary64.minExponent = -1074 := rfl
  rw [Format.targetExponent, totalExponent, totalExponent, hbits, hleast]
  omega

/-- Dividing mantissas leaves enough bits to round the quotient, or the least exponent. -/
theorem divCore_spec (hm₁ : 0 < m₁) (hm₂ : 0 < m₂) (e₁ e₂ : ℤ) :
    ∃ m e accuracy x, divCore .binary64 m₁ e₁ m₂ e₂ = (m, e, accuracy) ∧
      Represents (.ofMantissaAndAccuracy m accuracy) x ∧ (52 ≤ m.log2 ∨ e ≤ -1074) ∧
      x * 2 ^ e = m₁ * 2 ^ e₁ / (m₂ * 2 ^ e₂) := by
  obtain ⟨e, he⟩ : ∃ e, e = min (e₁ - e₂) (max (m₁.log2 + e₁ - (m₂.log2 + e₂) - 53) (-1074)) :=
    ⟨_, rfl⟩
  obtain ⟨k, hk⟩ : ∃ k : ℕ, (k : ℤ) = e₁ - e₂ - e := ⟨_, Int.toNat_of_nonneg (by omega)⟩
  have hshift : (e₁ - e₂ - e).toNat = k := by omega
  refine ⟨m₁ <<< k / m₂, e, accuracyOfFraction (m₁ <<< k % m₂) m₂,
    (m₁ <<< k / m₂ : ℕ) + (m₁ <<< k % m₂ : ℕ) / m₂, ?_,
    represents_fraction _ (Nat.mod_lt _ hm₂), ?_, ?_⟩
  · simp only [divCore, targetExponent_sub, ← he, hshift]
  · by_cases hleast : e ≤ -1074
    · exact .inr hleast
    · have hlarge := le_quotient k hm₁ hm₂ (by omega)
      exact .inl ((Nat.le_log2 (by omega)).mpr hlarge)
  · have hsplit : e₁ = e₂ + e + k := by omega
    rw [cast_quotient m₁ k hm₂, hsplit, zpow_add₀ two_ne_zero, zpow_add₀ two_ne_zero,
      zpow_natCast]
    field_simp

end Mantissas

/-- A number is an exact value rounded; it is infinite where that is too large. -/
inductive RoundsTo (q : ℚ) (x : Float) : Prop where
  | finite (hlt : roundedMagnitude |q| < 2 ^ 1024) (hfinite : x.isFinite = true)
      (hexact : exact x = SignType.sign q * roundedMagnitude |q|)
  | overflow (hle : 2 ^ 1024 ≤ roundedMagnitude |q|)
      (hunpack : x.toModel.unpack = .infinity (if q < 0 then .negative else .positive))

theorem roundsTo_of_parts {sign : Sign} {u : UnpackedFloat} {q : ℚ} {x : Float} (hq : 0 < q)
    (hfinite : u.isFinite = true) (hrounded : Rounded u) (hsided : SidedParts sign u)
    (hu : exactParts u = signFactor sign * roundedMagnitude q)
    (hx : x.toModel.unpack = UnpackedFloat.unpack .binary64 (UnpackedFloat.pack .binary64 u)) :
    RoundsTo (signFactor sign * q) x := by
  have hmagnitude : |signFactor sign * q| = q := by
    cases sign <;> simp [abs_of_pos hq]
  have hsign : (SignType.sign (signFactor sign * q) : ℚ) = signFactor sign := by
    cases sign <;> simp [sign_pos hq, Left.sign_neg]
  have habs : |exactParts u| = roundedMagnitude q := by
    rw [hu]
    cases sign <;> simp [abs_of_nonneg (roundedMagnitude_nonneg hq.le)]
  by_cases hlt : roundedMagnitude q < 2 ^ 1024
  · have hunpack : x.toModel.unpack = u :=
      hx.trans (unpack_pack_of_lt hfinite hrounded (habs.trans_lt hlt))
    refine .finite (hmagnitude.symm ▸ hlt) ?_ ?_
    · rwa [isFinite_eq_unpack, hunpack]
    · rw [exact, hunpack, hu, hsign, hmagnitude]
  · refine .overflow (hmagnitude.symm ▸ not_lt.mp hlt) ?_
    cases u with
    | notANumber | infinity => cases hfinite
    | zero sign' =>
      rw [← habs] at hlt
      simp at hlt
    | finite sign' m e hm =>
      obtain rfl : sign' = sign := hsided
      rw [← habs, abs_exactParts_finite, not_lt] at hlt
      rw [hx, unpack_pack_of_le hrounded hlt]
      cases sign' <;> simp [hq, hq.le, not_lt]

variable {a b : Float}

theorem unpack_div (a b : Float) :
    (a / b).toModel.unpack = UnpackedFloat.unpack .binary64
      (UnpackedFloat.pack .binary64
        (UnpackedFloat.div .binary64 a.toModel.unpack b.toModel.unpack)) :=
  rfl

theorem roundsTo_div_of_unpack {sign₁ sign₂ : Sign} {m₁ m₂ : ℕ} {e₁ e₂ : ℤ} {hm₁ : 0 < m₁}
    {hm₂ : 0 < m₂} (ha : a.toModel.unpack = .finite sign₁ m₁ e₁ hm₁)
    (hb : b.toModel.unpack = .finite sign₂ m₂ e₂ hm₂) :
    RoundsTo (exact a / exact b) (a / b) := by
  obtain ⟨m, e, accuracy, x, hcore, hrepresents, hbits, hquotient⟩ := divCore_spec hm₁ hm₂ e₁ e₂
  have hpos : 0 < (m₁ : ℚ) * 2 ^ e₁ / (m₂ * 2 ^ e₂) :=
    div_pos (magnitude_pos hm₁ e₁) (magnitude_pos hm₂ e₂)
  have hx : 0 < x := by
    rw [← hquotient] at hpos
    exact pos_of_mul_pos_left hpos (by positivity)
  obtain ⟨hexact, hfinite, hrounded⟩ :=
    roundWithAccuracy_spec (sign₁ / sign₂) hrepresents hx hbits
  rw [hquotient] at hexact
  have hunpack := unpack_div a b
  rw [ha, hb] at hunpack
  simp only [UnpackedFloat.div, hcore] at hunpack
  have hsigned : exact a / exact b =
      signFactor (sign₁ / sign₂) * (m₁ * 2 ^ e₁ / (m₂ * 2 ^ e₂)) := by
    rw [exact, exact, ha, hb, exactParts_finite, exactParts_finite, signFactor_div,
      mul_div_mul_comm]
  rw [hsigned]
  exact roundsTo_of_parts hpos hfinite hrounded (sidedParts_roundWithAccuracy _ _ _ _) hexact
    hunpack

/-- A quotient is the exact quotient rounded. -/
theorem roundsTo_div (ha : a.isFinite = true) (hb : b.isFinite = true) (hb0 : exact b ≠ 0) :
    RoundsTo (exact a / exact b) (a / b) := by
  rw [isFinite_eq_unpack] at ha hb
  cases hv : b.toModel.unpack with
  | notANumber | infinity =>
    rw [hv] at hb
    cases hb
  | zero sign =>
    rw [exact, hv] at hb0
    exact absurd rfl hb0
  | finite sign₂ m₂ e₂ hm₂ =>
    cases hu : a.toModel.unpack with
    | notANumber | infinity =>
      rw [hu] at ha
      cases ha
    | zero sign₁ =>
      have hzero : (a / b).toModel.unpack = .zero (sign₁ / sign₂) := by
        rw [unpack_div, hu, hv]
        exact unpack_packedZero
      have hnone : exact a = 0 := by rw [exact, hu, exactParts_zero]
      rw [hnone, zero_div]
      refine .finite (by simp) ?_ ?_
      · rw [isFinite_eq_unpack, hzero]
        rfl
      · simp [exact, hzero]
    | finite sign₁ m₁ e₁ hm₁ => exact roundsTo_div_of_unpack hu hv

namespace RoundsTo

variable {p q : ℚ} {x y : Float}

theorem abs_eq_roundedMagnitude (h : exact x = SignType.sign q * roundedMagnitude |q|) :
    |exact x| = roundedMagnitude |q| := by
  have hnonneg := roundedMagnitude_nonneg (abs_nonneg q)
  rw [h, abs_mul, abs_of_nonneg hnonneg]
  rcases lt_trichotomy q 0 with hq | rfl | hq
  · simp [sign_neg hq]
  · simp
  · simp [sign_pos hq]

/-- Larger exact magnitudes are rounded to larger ones. -/
theorem abs_le (hx : RoundsTo p x) (hy : RoundsTo q y) (h : |p| ≤ |q|) : x.abs ≤ y.abs := by
  have hmono : roundedMagnitude |p| ≤ roundedMagnitude |q| :=
    roundedMagnitude_mono (abs_nonneg p) h
  cases hx with
  | finite _ hxfinite hxexact =>
    cases hy with
    | finite _ hyfinite hyexact =>
      rw [← isFinite_abs] at hxfinite hyfinite
      rw [le_iff_exact hxfinite hyfinite, exact_abs, exact_abs, abs_eq_roundedMagnitude hxexact,
        abs_eq_roundedMagnitude hyexact]
      exact hmono
    | overflow _ hyunpack =>
      rw [le_iff, compare?_eq_compare, unpack_abs, unpack_abs, hyunpack]
      rw [isFinite_eq_unpack] at hxfinite
      cases hu : x.toModel.unpack with
      | notANumber | infinity =>
        rw [hu] at hxfinite
        cases hxfinite
      | zero | finite => exact .inl rfl
  | overflow hxle hxunpack =>
    cases hy with
    | finite hylt _ _ => exact absurd (hxle.trans hmono) hylt.not_ge
    | overflow _ hyunpack =>
      rw [le_iff, compare?_eq_compare, unpack_abs, unpack_abs, hxunpack, hyunpack]
      exact .inr rfl

end RoundsTo

end Division

end FactScore.Number
