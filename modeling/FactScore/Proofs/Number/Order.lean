import FactScore.Proofs.Expr.Comparison
import Mathlib.Algebra.Order.Group.Defs
import Mathlib.Algebra.Order.Group.Int
import Mathlib.Data.Prod.Lex

/-!
# The order of numbers

Apart from what is not a number, numbers stand in a line (`Number.place`), and they compare as their
places do (`Number.compare?_eq_some`).  So they are totally ordered, up to the two zeros, which have
one place.
-/

namespace FactScore.Number

open Float.Model Float.Model.UnpackedFloat

/-- Where the parts of a number stand: the side of zero first, then the exponent, then the mantissa.
    Below zero both count the other way round. -/
def placeParts : UnpackedFloat → ℤ ×ₗ ℤ ×ₗ ℤ
  | .infinity .negative => toLex (-2, toLex (0, 0))
  | .finite .negative m e _ => toLex (-1, toLex (-e, -m))
  | .zero _ => toLex (0, toLex (0, 0))
  | .finite .positive m e _ => toLex (1, toLex (e, m))
  | .infinity .positive => toLex (2, toLex (0, 0))
  | .notANumber => toLex (3, toLex (0, 0))

/-- Where a number stands. -/
def place (x : Float) : ℤ ×ₗ ℤ ×ₗ ℤ :=
  placeParts x.toModel.unpack

theorem compare_natCast (m n : ℕ) : compare (m : ℤ) n = compare m n := by
  cases h : compare m n with
  | lt => exact compare_lt_iff_lt.mpr (Int.ofNat_lt.mpr (compare_lt_iff_lt.mp h))
  | eq => exact compare_eq_iff_eq.mpr (congrArg _ (compare_eq_iff_eq.mp h))
  | gt => exact compare_gt_iff_gt.mpr (Int.ofNat_lt.mpr (compare_gt_iff_gt.mp h))

theorem compare_neg {α : Type} [AddCommGroup α] [LinearOrder α] [IsOrderedAddMonoid α] (a b : α) :
    compare (-a) (-b) = (compare a b).swap := by
  cases h : compare a b with
  | lt => exact compare_gt_iff_gt.mpr (neg_lt_neg (compare_lt_iff_lt.mp h))
  | eq => exact compare_eq_iff_eq.mpr (congrArg _ (compare_eq_iff_eq.mp h))
  | gt => exact compare_lt_iff_lt.mpr (neg_lt_neg (compare_gt_iff_gt.mp h))

/-- Places on one side compare by their exponents and then by their mantissas. -/
theorem compare_toLex (side e e' m m' : ℤ) :
    compare (toLex (side, toLex (e, m))) (toLex (side, toLex (e', m'))) =
      (compare e e').then (compare m m') := by
  simp [Prod.Lex.compare_def, compareLex, compareOn]

theorem compare_placeParts {x y : UnpackedFloat} (hx : x.isNaN = false) (hy : y.isNaN = false) :
    x.compare y = some (compare (placeParts x) (placeParts y)) := by
  cases x with
  | notANumber => cases hx
  | infinity s =>
    cases y with
    | notANumber => cases hy
    | zero _ => cases s <;> rfl
    | infinity t | finite t _ _ _ => cases s <;> cases t <;> rfl
  | zero s =>
    cases y with
    | notANumber => cases hy
    | zero _ => rfl
    | infinity t | finite t _ _ _ => cases t <;> rfl
  | finite s m e _ =>
    cases y with
    | notANumber => cases hy
    | zero _ => cases s <;> rfl
    | infinity t => cases s <;> cases t <;> rfl
    | finite t m' e' _ =>
      cases s with
      | positive =>
        cases t with
        | positive =>
          have hplaces := compare_toLex 1 e e' m m'
          rw [compare_natCast] at hplaces
          exact congrArg some hplaces.symm
        | negative => rfl
      | negative =>
        cases t with
        | positive => rfl
        | negative =>
          have hplaces := compare_toLex (-1) (-e) (-e') (-m) (-m')
          rw [compare_neg, compare_neg, compare_natCast, ← Ordering.swap_then] at hplaces
          exact congrArg some hplaces.symm

section

variable {a b : Float}

/-- Numbers compare as their places do. -/
theorem compare?_eq_some (ha : a.isNaN = false) (hb : b.isNaN = false) :
    compare? a b = some (compare (place a) (place b)) :=
  compare_placeParts ha hb

theorem lt_iff_place (ha : a.isNaN = false) (hb : b.isNaN = false) :
    a < b ↔ place a < place b := by
  rw [lt_iff, compare?_eq_some ha hb, Option.some.injEq, compare_lt_iff_lt]

theorem beq_iff_place (ha : a.isNaN = false) (hb : b.isNaN = false) :
    (a == b) = true ↔ place a = place b := by
  rw [beq_iff, compare?_eq_some ha hb, Option.some.injEq, compare_eq_iff_eq]

theorem le_iff_place (ha : a.isNaN = false) (hb : b.isNaN = false) :
    a ≤ b ↔ place a ≤ place b := by
  rw [le_iff, ← lt_iff, ← beq_iff, lt_iff_place ha hb, beq_iff_place ha hb, le_iff_lt_or_eq]

end

end FactScore.Number
