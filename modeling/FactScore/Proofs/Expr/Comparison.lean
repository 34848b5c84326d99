import FactScore.Expr.Eval

/-!
# Comparisons of facts

What a comparison of a fact with a literal tells about the fact.  Numbers are ordered by one
comparison (`Number.compare?`), of which `<`, `≤` and `==` are readings, so that values are ordered
the way their numbers are (`Value.order?_number`), and equality is symmetric (`Value.beq_comm`).  A
comparison of a fact never fails, and it is truthy just when the fact is there and as the comparison
says (`Expr.Tells`).
-/

namespace FactScore

namespace Number

/-- How two numbers compare.  Nothing compares with what is not a number. -/
def compare? (a b : Float) : Option Ordering :=
  a.toModel.compare b.toModel

section

variable {a b : Float}

theorem lt_iff : a < b ↔ compare? a b = some .lt := by
  change decide (a.toModel < b.toModel) = true ↔ _
  rw [decide_eq_true_iff]
  change (a.toModel.unpack.compare b.toModel.unpack == some .lt) = true ↔ _
  rw [beq_iff_eq]
  rfl

theorem beq_iff : (a == b) = true ↔ compare? a b = some .eq := by
  change (a.toModel.unpack.compare b.toModel.unpack == some .eq) = true ↔ _
  rw [beq_iff_eq]
  rfl

theorem le_iff : a ≤ b ↔ compare? a b = some .lt ∨ compare? a b = some .eq := by
  change decide (a.toModel ≤ b.toModel) = true ↔ _
  rw [decide_eq_true_iff]
  change (compare? a b).any (·.isLE) = true ↔ _
  rcases compare? a b with _ | order
  · simp
  · cases order <;> simp

/-- Comparing the other way round gives the opposite. -/
theorem compare?_swap (a b : Float) : compare? b a = (compare? a b).map Ordering.swap := by
  change b.toModel.unpack.compare a.toModel.unpack =
    (a.toModel.unpack.compare b.toModel.unpack).map Ordering.swap
  generalize a.toModel.unpack = x, b.toModel.unpack = y
  have hfinite (m₁ m₂ : Nat) (e₁ e₂ : Int) :
      (compare e₂ e₁).then (compare m₂ m₁) = ((compare e₁ e₂).then (compare m₁ m₂)).swap := by
    have hexponent : compare e₂ e₁ = (compare e₁ e₂).swap := Std.OrientedCmp.eq_swap
    have hmantissa : compare m₂ m₁ = (compare m₁ m₂).swap := Std.OrientedCmp.eq_swap
    rw [Ordering.swap_then, hexponent, hmantissa]
  cases x with
  | notANumber => cases y <;> rfl
  | infinity s =>
    cases y with
    | infinity t => cases s <;> cases t <;> rfl
    | notANumber => rfl
    | zero _ | finite _ _ _ _ => cases s <;> rfl
  | zero s =>
    cases y with
    | notANumber => rfl
    | zero _ => rfl
    | infinity t | finite t _ _ _ => cases t <;> rfl
  | finite s m e _ =>
    cases y with
    | notANumber => rfl
    | zero _ => cases s <;> rfl
    | infinity t => cases t <;> rfl
    | finite t m' e' _ =>
      -- numbers of one sign compare by exponent and then by mantissa
      cases s with
      | positive =>
        cases t with
        | positive => exact congrArg some (hfinite m m' e e')
        | negative => rfl
      | negative =>
        cases t with
        | positive => rfl
        | negative => exact congrArg (fun order => some order.swap) (hfinite m m' e e')

theorem beq_comm (a b : Float) : (a == b) = (b == a) := by
  rw [Bool.eq_iff_iff, beq_iff, beq_iff, compare?_swap a b]
  rcases compare? a b with _ | order
  · simp
  · cases order <;> simp

theorem lt_iff_any : b < a ↔ (compare? a b).any (· == .gt) = true := by
  rw [lt_iff, compare?_swap a b]
  rcases compare? a b with _ | order
  · simp
  · cases order <;> simp

theorem le_iff_any : b ≤ a ↔ (compare? a b).any (· != .lt) = true := by
  rw [le_iff, compare?_swap a b]
  rcases compare? a b with _ | order
  · simp
  · cases order <;> simp

end

end Number

namespace Value

/-- Values are ordered the way their numbers compare. -/
theorem order?_number (a b : Float) :
    (Value.number a).order? (.number b) = Number.compare? a b := by
  have hswap := Number.compare?_swap a b
  simp only [order?, Number.lt_iff, Number.beq_iff, hswap]
  rcases Number.compare? a b with _ | order
  · rfl
  · cases order <;> rfl

mutual

/-- It does not matter which of two values is compared with which. -/
theorem equal_comm (a b : Value) : a.equal b = b.equal a := by
  cases a with
  | number x =>
    cases b with
    | number y => exact Number.beq_comm x y
    | _ => rfl
  | bool x =>
    cases b with
    | bool y => exact Bool.beq_comm
    | _ => rfl
  | text s =>
    cases b with
    | text t => exact Bool.beq_comm
    | _ => rfl
  | list items =>
    cases b with
    | list items' => exact equalItems_comm items items'
    | _ => rfl
  | map entries =>
    cases b with
    | map entries' => exact equalEntries_comm entries entries'
    | _ => rfl
  | missing => cases b <;> rfl

theorem equalItems_comm (as bs : List Value) : equalItems as bs = equalItems bs as := by
  cases as with
  | nil => cases bs <;> rfl
  | cons a as =>
    cases bs with
    | nil => rfl
    | cons b bs => rw [equalItems, equalItems, equal_comm a b, equalItems_comm as bs]

theorem equalEntries_comm {bound bound' : Option String} (as : Entries Value bound)
    (bs : Entries Value bound') : equalEntries as bs = equalEntries bs as := by
  cases as with
  | nil => cases bs <;> rfl
  | cons key above a as =>
    cases bs with
    | nil => rfl
    | cons key' above' b bs =>
      have hkey : (key == key') = (key' == key) := Bool.beq_comm
      rw [equalEntries, equalEntries, hkey, equal_comm a b, equalEntries_comm as bs]

end

theorem beq_comm (a b : Value) : (a == b) = (b == a) :=
  equal_comm a b

theorem beq_text_iff {value : Value} {s : String} :
    (value == .text s) = true ↔ value = .text s := by
  change value.equal (.text s) = true ↔ _
  cases value <;> simp [equal]

theorem beq_bool_iff {value : Value} {b : Bool} :
    (value == .bool b) = true ↔ value = .bool b := by
  change value.equal (.bool b) = true ↔ _
  cases value <;> simp [equal]

end Value

namespace Context

variable {context : Context} {path : FactPath}

/-- A value other than the missing one is read just where it is. -/
theorem get_eq_iff {value : Value} (hvalue : value ≠ .missing) :
    context.get path = value ↔ context.lookup path = some value := by
  unfold get
  cases context.lookup path with
  | none => simp [hvalue.symm]
  | some found => simp

/-- The fact at a path is a number of which something holds. -/
def NumberAt (context : Context) (path : FactPath) (holds : Float → Prop) : Prop :=
  ∃ x, context.lookup path = some (.number x) ∧ holds x

theorem NumberAt.of_lookup {holds : Float → Prop} {x : Float} (h : context.NumberAt path holds)
    (hlookup : context.lookup path = some (.number x)) : holds x := by
  obtain ⟨y, hy, hholds⟩ := h
  rw [hlookup] at hy
  cases hy
  exact hholds

/-- A fact is in an order against a number just when it is a number that is. -/
theorem any_order?_get_iff {bound : Float} {condition : Ordering → Bool} :
    ((context.get path).order? (.number bound)).any condition = true ↔
      context.NumberAt path fun x => (Number.compare? x bound).any condition = true := by
  unfold NumberAt
  cases hget : context.get path with
  | number x =>
    have hlookup := (get_eq_iff (by simp)).mp hget
    simp [Value.order?_number, hlookup]
  | _ =>
    simp only [Value.order?, Option.any_none, Bool.false_eq_true, false_iff]
    rintro ⟨x, hlookup, -⟩
    rw [(get_eq_iff (by simp)).mpr hlookup] at hget
    cases hget

end Context

namespace Expr

/-- An expression has a value, and the value is truthy just when something holds. -/
def Tells (context : Context) (expr : Expr) (holds : Prop) : Prop :=
  ∃ value, expr.eval context = .ok value ∧ (value.isTruthy = true ↔ holds)

section

variable {context : Context} {path : FactPath}

theorem tells_eq_text (s : String) :
    (Expr.eq (.var path) (.text s)).Tells context (context.lookup path = some (.text s)) := by
  refine ⟨.bool (context.get path == .text s), rfl, ?_⟩
  exact Value.beq_text_iff.trans (Context.get_eq_iff (by simp))

theorem tells_eq_bool (b : Bool) :
    (Expr.eq (.var path) (.bool b)).Tells context (context.lookup path = some (.bool b)) := by
  refine ⟨.bool (context.get path == .bool b), rfl, ?_⟩
  exact Value.beq_bool_iff.trans (Context.get_eq_iff (by simp))

theorem tells_gt (bound : Float) :
    (Expr.gt (.var path) (.number bound)).Tells context (context.NumberAt path (bound < ·)) := by
  refine ⟨.bool (((context.get path).order? (.number bound)).any (· == .gt)), rfl, ?_⟩
  simp only [Number.lt_iff_any]
  exact Context.any_order?_get_iff

theorem tells_gte (bound : Float) :
    (Expr.gte (.var path) (.number bound)).Tells context (context.NumberAt path (bound ≤ ·)) := by
  refine ⟨.bool (((context.get path).order? (.number bound)).any (· != .lt)), rfl, ?_⟩
  simp only [Number.le_iff_any]
  exact Context.any_order?_get_iff

end

end Expr

end FactScore
