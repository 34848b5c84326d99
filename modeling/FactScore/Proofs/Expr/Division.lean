import FactScore.Proofs.Number.Quotients

/-!
# Division by guarded denominators

Over exact values, keeping denominators away from zero moves only those in the gap around zero, in
an order-preserving way (`guardsZero_awayFromZero`).  The evaluator does this on numbers, and loses
nothing by it (`exact_guardDenominator`), so that division by a guarded denominator is an exact
quotient within bounds, rounded (`Expr.division_guarded`).
-/

namespace FactScore

open Number

/-- The side of zero that a denominator counts for, where zero itself counts as positive. -/
def side (d : ℚ) : SignType :=
  if d < 0 then -1 else 1

/-- A guard brings denominators up to a least magnitude.  It leaves each on its side, moves none
    that is large enough, and keeps their order. -/
structure GuardsZero (least : ℚ) (guard : ℚ → ℚ) : Prop where
  least_le (d : ℚ) : least ≤ |guard d|
  sign_eq (d : ℚ) : SignType.sign (guard d) = side d
  eq_self_iff (d : ℚ) : guard d = d ↔ least ≤ |d|
  monotone : Monotone guard
  idempotent (d : ℚ) : guard (guard d) = guard d

section Guard

theorem sign_div (a b : ℚ) :
    SignType.sign (a / b) = SignType.sign a * SignType.sign b := by
  rw [div_eq_mul_inv, sign_mul]
  rcases lt_trichotomy b 0 with hneg | rfl | hpos
  · rw [sign_neg hneg, sign_neg (inv_lt_zero.mpr hneg)]
  · rw [inv_zero]
  · rw [sign_pos hpos, sign_pos (inv_pos.mpr hpos)]

variable {least d : ℚ}

theorem awayFromZero_of_le (h : least ≤ |d|) : awayFromZero least d = d := by
  unfold awayFromZero
  rw [if_pos (le_abs'.mp h).symm]

theorem awayFromZero_of_lt (h : |d| < least) :
    awayFromZero least d = if d < 0 then -least else least := by
  unfold awayFromZero
  rw [if_neg fun hle => h.not_ge (le_abs'.mpr hle.symm)]

/-- A denominator is kept, or stands in the gap and moves to the end of its side. -/
theorem awayFromZero_cases (least d : ℚ) :
    (least ≤ |d| ∧ awayFromZero least d = d) ∨
      (-least < d ∧ d < 0 ∧ awayFromZero least d = -least) ∨
      (0 ≤ d ∧ d < least ∧ awayFromZero least d = least) := by
  rcases le_or_gt least |d| with hle | hlt
  · exact .inl ⟨hle, awayFromZero_of_le hle⟩
  · have hgap := abs_lt.mp hlt
    have hmoved := awayFromZero_of_lt hlt
    rcases lt_or_ge d 0 with hneg | hpos
    · exact .inr (.inl ⟨hgap.1, hneg, hmoved.trans (if_pos hneg)⟩)
    · exact .inr (.inr ⟨hpos, hgap.2, hmoved.trans (if_neg hpos.not_gt)⟩)

theorem le_abs_awayFromZero (h : 0 < least) (d : ℚ) : least ≤ |awayFromZero least d| := by
  rcases awayFromZero_cases least d with ⟨hle, heq⟩ | ⟨_, _, heq⟩ | ⟨_, _, heq⟩
  · rwa [heq]
  · rw [heq, abs_neg, abs_of_pos h]
  · rw [heq, abs_of_pos h]

theorem sign_awayFromZero (h : 0 < least) (d : ℚ) :
    SignType.sign (awayFromZero least d) = side d := by
  unfold side
  rcases awayFromZero_cases least d with ⟨hle, heq⟩ | ⟨_, hneg, heq⟩ | ⟨hpos, _, heq⟩
  · have hne : d ≠ 0 := abs_pos.mp (h.trans_le hle)
    rw [heq]
    rcases hne.lt_or_gt with hneg | hpos
    · rw [sign_neg hneg, if_pos hneg]
    · rw [sign_pos hpos, if_neg hpos.not_gt]
  · rw [heq, sign_neg (neg_lt_zero.mpr h), if_pos hneg]
  · rw [heq, sign_pos h, if_neg hpos.not_gt]

theorem awayFromZero_eq_self_iff (h : 0 < least) : awayFromZero least d = d ↔ least ≤ |d| := by
  refine ⟨fun heq => ?_, awayFromZero_of_le⟩
  rw [← heq]
  exact le_abs_awayFromZero h d

theorem awayFromZero_monotone (h : 0 < least) : Monotone (awayFromZero least : ℚ → ℚ) := by
  intro d d' hle
  -- what is kept stands beyond the gap on one side or the other
  have hkept := @le_abs' ℚ _ _ _ least
  rcases awayFromZero_cases least d with ⟨hd, heq⟩ | ⟨_, _, heq⟩ | ⟨_, _, heq⟩ <;>
    rcases awayFromZero_cases least d' with ⟨hd', heq'⟩ | ⟨_, _, heq'⟩ | ⟨_, _, heq'⟩ <;>
    rw [heq, heq']
  · exact hle
  · rcases hkept.mp hd with hbelow | habove <;> linarith
  · rcases hkept.mp hd with hbelow | habove <;> linarith
  · rcases hkept.mp hd' with hbelow | habove <;> linarith
  · linarith
  · rcases hkept.mp hd' with hbelow | habove <;> linarith
  · linarith

/-- Denominators are guarded by any positive least magnitude. -/
theorem guardsZero_awayFromZero (h : 0 < least) : GuardsZero least (awayFromZero least) where
  least_le := le_abs_awayFromZero h
  sign_eq := sign_awayFromZero h
  eq_self_iff _ := awayFromZero_eq_self_iff h
  monotone := awayFromZero_monotone h
  idempotent d := awayFromZero_of_le (le_abs_awayFromZero h d)

end Guard

section Denominators

variable {least d : Float}

/-- Keeping numbers away from zero keeps their exact values away from zero. -/
theorem exact_awayFromZero (hleast : least.isFinite = true) (hd : d.isFinite = true) :
    (awayFromZero least d).isFinite = true ∧
      exact (awayFromZero least d) = awayFromZero (exact least) (exact d) := by
  have hneg := (isFinite_neg least).trans hleast
  have hkept : (least ≤ d ∨ d ≤ -least) ↔ (exact least ≤ exact d ∨ exact d ≤ -exact least) := by
    rw [le_iff_exact hleast hd, le_iff_exact hd hneg, exact_neg]
  have hside : d < 0 ↔ exact d < 0 := lt_iff_exact hd rfl
  unfold awayFromZero
  simp only [hkept, hside]
  split_ifs
  · exact ⟨hd, rfl⟩
  · exact ⟨hneg, exact_neg least⟩
  · exact ⟨hleast, rfl⟩

theorem isFinite_divisionEpsilon : divisionEpsilon.isFinite = true := rfl

theorem exact_divisionEpsilon_pos : 0 < exact divisionEpsilon := by
  have hzero : (0 : Float).isFinite = true := rfl
  exact (lt_iff_exact hzero isFinite_divisionEpsilon).mp (by decide)

theorem exact_guardDenominator (hd : d.isFinite = true) :
    (guardDenominator d).isFinite = true ∧
      exact (guardDenominator d) = awayFromZero (exact divisionEpsilon) (exact d) :=
  exact_awayFromZero isFinite_divisionEpsilon hd

/-- Beyond the gap means large enough, also for what is infinite or not a number. -/
theorem divisionEpsilon_le_abs_iff (d : Float) :
    divisionEpsilon ≤ d.abs ↔ divisionEpsilon ≤ d ∨ d ≤ -divisionEpsilon := by
  cases hu : d.toModel.unpack with
  | zero | finite =>
    have hd : d.isFinite = true := by
      rw [isFinite_eq_unpack, hu]
      rfl
    have habs := (isFinite_abs d).trans hd
    have hleast := isFinite_divisionEpsilon
    have hneg := (isFinite_neg divisionEpsilon).trans hleast
    rw [le_iff_exact hleast habs, le_iff_exact hleast hd, le_iff_exact hd hneg, exact_abs,
      exact_neg, le_abs', or_comm]
  | infinity sign =>
    simp only [le_iff, compare?_eq_compare, unpack_abs, hu]
    cases sign <;> decide
  | notANumber =>
    simp only [le_iff, compare?_eq_compare, unpack_abs, hu]
    decide

/-- The guard looks at the magnitude. -/
theorem guardDenominator_eq (d : Float) :
    guardDenominator d =
      if divisionEpsilon ≤ d.abs then d
      else if d < 0 then -divisionEpsilon
      else divisionEpsilon := by
  simp only [guardDenominator, awayFromZero, divisionEpsilon_le_abs_iff]

/-- Every denominator is guarded. -/
theorem divisionEpsilon_le_abs (d : Float) : divisionEpsilon ≤ (guardDenominator d).abs := by
  rw [guardDenominator_eq]
  split_ifs with hkept
  · exact hkept
  · decide
  · decide

end Denominators

/-- The bounds that a quotient of numbers keeps to when its denominator is guarded. -/
structure GuardedQuotient (n d quotient : Float) : Prop where
  denominator_ne_zero : exact (guardDenominator d) ≠ 0
  abs_le : |exact n / exact (guardDenominator d)| ≤ |exact n| / exact divisionEpsilon
  sign_eq : SignType.sign (exact n / exact (guardDenominator d)) =
    SignType.sign (exact n) * side (exact d)
  /-- The quotient is the exact one rounded. -/
  roundsTo : RoundsTo (exact n / exact (guardDenominator d)) quotient
  /-- Rounding keeps the bound. -/
  rounded_le : quotient.abs ≤ (n / divisionEpsilon).abs

theorem guardedQuotient_div {n d : Float} (hn : n.isFinite = true) (hd : d.isFinite = true) :
    GuardedQuotient n d (n / guardDenominator d) := by
  obtain ⟨hfinite, hexact⟩ := exact_guardDenominator hd
  have hpos := exact_divisionEpsilon_pos
  have hguards := guardsZero_awayFromZero hpos
  have hleast : exact divisionEpsilon ≤ |exact (guardDenominator d)| := by
    rw [hexact]
    exact hguards.least_le _
  have hne : exact (guardDenominator d) ≠ 0 := abs_pos.mp (hpos.trans_le hleast)
  have hbound : |exact n / exact (guardDenominator d)| ≤ |exact n| / exact divisionEpsilon := by
    rw [abs_div]
    exact div_le_div_of_nonneg_left (abs_nonneg _) hpos hleast
  have hrounds := roundsTo_div hn hfinite hne
  refine ⟨hne, hbound, ?_, hrounds, ?_⟩
  · rw [sign_div, hexact, hguards.sign_eq]
  · refine hrounds.abs_le (roundsTo_div hn isFinite_divisionEpsilon hpos.ne') ?_
    rwa [abs_div (exact n) (exact divisionEpsilon), abs_of_pos hpos]

namespace Expr

/-- Division never divides by zero.  The guard of denominators is sound over exact values, and
    acts on numbers as it does on these; so numbers always have a quotient, and as long as they are
    finite it is an exact quotient within bounds, rounded. -/
theorem division_guarded :
    (∀ least : ℚ, 0 < least → GuardsZero least (awayFromZero least)) ∧
    0 < exact divisionEpsilon ∧
    (∀ d : Float, d.isFinite = true → (guardDenominator d).isFinite = true ∧
      exact (guardDenominator d) = awayFromZero (exact divisionEpsilon) (exact d)) ∧
    ∀ (context : Context) (left right : Expr) (n d : Float),
      left.eval context = .ok (.number n) → right.eval context = .ok (.number d) →
        (apply .div [left, right]).eval context = .ok (.number (n / guardDenominator d)) ∧
        divisionEpsilon ≤ (guardDenominator d).abs ∧
        (n.isFinite = true → d.isFinite = true →
          GuardedQuotient n d (n / guardDenominator d)) := by
  refine ⟨fun _ => guardsZero_awayFromZero, exact_divisionEpsilon_pos,
    fun _ => exact_guardDenominator, ?_⟩
  intro context left right n d hleft hright
  refine ⟨?_, divisionEpsilon_le_abs d, guardedQuotient_div⟩
  rw [eval_apply, List.map_cons, List.map_cons, hleft, hright]
  rfl

/-- A context in which a denominator stands in the gap below zero. -/
def overdrawnContext : Context :=
  Context.empty.set ⟨"balance"⟩ (.number (-1e-12))

theorem division_guarded_overdrawn :
    (apply .div [number 1, fact "balance"]).eval overdrawnContext =
        .ok (.number (1 / -divisionEpsilon)) ∧
      GuardedQuotient 1 (-1e-12) (1 / -divisionEpsilon) := by
  have hbalance : (fact "balance").eval overdrawnContext = .ok (.number (-1e-12)) := rfl
  have hmoved : guardDenominator (-1e-12) = -divisionEpsilon := by
    rw [guardDenominator_eq, if_neg (by decide), if_pos (by decide)]
  obtain ⟨heval, -, hquotient⟩ :=
    division_guarded.2.2.2 overdrawnContext (number 1) (fact "balance") 1 (-1e-12) rfl hbalance
  rw [hmoved] at heval hquotient
  exact ⟨heval, hquotient rfl rfl⟩

end Expr

end FactScore
