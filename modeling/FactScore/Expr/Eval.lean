import FactScore.Context
import FactScore.Expr

/-!
# Evaluation of expressions

An operator acts on the outcomes of its arguments, each a value or an error, and decides itself
which of them it looks at: an outcome that it does not look at cannot make it fail.

A fact that is not there is missing.  Missing is false, equals only itself, is ordered against
nothing, and makes arithmetic missing.
-/

namespace FactScore

/-- How many arguments an operator takes. -/
inductive Arity where
  | any
  | exactly (n : Nat)
  | atLeastOne
  deriving DecidableEq, Repr

namespace Arity

/-- Whether a number of arguments is right. -/
def admits : Arity → Nat → Bool
  | any, _ => true
  | exactly n, found => found == n
  | atLeastOne, found => 0 < found

/-- The number as error messages give it. -/
def describe : Arity → String
  | any => "any number of"
  | exactly n => "exactly " ++ toString n
  | atLeastOne => "at least 1"

end Arity

/-- The number of arguments that an operator takes. -/
def Op.arity : Op → Arity
  | .and | .or => .any
  | .not => .exactly 1
  | .eq | .ne | .gt | .gte | .lt | .lte | .sub | .div => .exactly 2
  | .ifElse => .exactly 3
  | .isIn | .add | .mul | .min | .max => .atLeastOne

/-- Why an expression has no value. -/
inductive EvalError where
  /-- An operator with a wrong number of arguments. -/
  | arity (op : Op) (found : Nat)
  /-- An operand of arithmetic that is neither a number nor missing. -/
  | typeMismatch (op : Op) (found : String)
  deriving DecidableEq, Repr

def EvalError.message : EvalError → String
  | .arity op found =>
    "operator '" ++ op.name ++ "' expects " ++ op.arity.describe ++ " argument(s), got " ++
      toString found
  | .typeMismatch op found =>
    "operator '" ++ op.name ++ "' expects number, got " ++ found

/-- What evaluating an expression comes to. -/
abbrev Outcome := Except EvalError Value

/-- The least magnitude of a denominator. -/
def divisionEpsilon : Float := 1e-9

/-- A number kept away from zero: one that is closer than `least` becomes `least` with its own
    sign, which for zero itself is positive. -/
def awayFromZero {α : Type} [OfNat α 0] [Neg α] [LE α] [LT α] [DecidableLE α] [DecidableLT α]
    (least x : α) : α :=
  if least ≤ x ∨ x ≤ -least then x
  else if x < 0 then -least
  else least

/-- A denominator kept away from zero by the least magnitude. -/
def guardDenominator (x : Float) : Float :=
  awayFromZero divisionEpsilon x

/-- The lesser of two numbers, where one that is not a number gives way to the other. -/
def lesser (a b : Float) : Float :=
  if a.isNaN then b
  else if b.isNaN then a
  else if b < a then b
  else a

/-- The greater of two numbers, where one that is not a number gives way to the other. -/
def greater (a b : Float) : Float :=
  if a.isNaN then b
  else if b.isNaN then a
  else if a < b then b
  else a

/-- The order of two numbers or of two texts; nothing else is ordered. -/
def Value.order? : Value → Value → Option Ordering
  | .number a, .number b =>
    if a < b then some .lt
    else if b < a then some .gt
    else if a == b then some .eq
    else none
  | .text a, .text b => some (compare a b)
  | _, _ => none

namespace Outcome

/-- Whether all outcomes are truthy, looking no further than the first that is not. -/
def allTruthy : List Outcome → Outcome
  | [] => .ok (.bool true)
  | outcome :: rest => do
    if (← outcome).isTruthy then allTruthy rest else return .bool false

/-- Whether some outcome is truthy, looking no further than the first that is. -/
def anyTruthy : List Outcome → Outcome
  | [] => .ok (.bool false)
  | outcome :: rest => do
    if (← outcome).isTruthy then return .bool true else anyTruthy rest

/-- Whether some outcome is a value equal to the given one, looking no further than that. -/
def anyEqual (needle : Value) : List Outcome → Outcome
  | [] => .ok (.bool false)
  | outcome :: rest => do
    if (← outcome) == needle then return .bool true else anyEqual needle rest

/-- Whether a value is among the candidates.  A single candidate that is a list stands for its
    items.  A missing value is nowhere, whatever the candidates are. -/
def member (needle : Value) (candidates : List Outcome) : Outcome :=
  if needle.isMissing then .ok (.bool false)
  else
    match candidates with
    | [.ok (.list items)] => .ok (.bool (items.any (· == needle)))
    | _ => anyEqual needle candidates

/-- The numbers that the operands of arithmetic are, or nothing when one is missing.  The first
    operand that fails or has another type is an error, also after a missing one. -/
def numbers (op : Op) : List Outcome → Except EvalError (Option (List Float))
  | [] => .ok (some [])
  | outcome :: rest => do
    match ← outcome with
    | .number x => return (← numbers op rest).map (x :: ·)
    | .missing =>
      let _ ← numbers op rest
      return none
    | value => .error (.typeMismatch op value.kindName)

/-- Arithmetic on the operands; it is missing when an operand is. -/
def arithmetic (op : Op) (operands : List Outcome) (compute : List Float → Float) : Outcome := do
  match ← numbers op operands with
  | none => return .missing
  | some xs => return .number (compute xs)

/-- Arithmetic on two operands; it is missing when an operand is. -/
def arithmeticPair (op : Op) (left right : Outcome) (compute : Float → Float → Float) :
    Outcome := do
  match ← numbers op [left, right] with
  | some [x, y] => return .number (compute x y)
  | _ => return .missing

/-- Whether two outcomes are values in an order of which a condition holds. -/
def ordered (left right : Outcome) (condition : Ordering → Bool) : Outcome := do
  let a ← left
  let b ← right
  return .bool ((a.order? b).any condition)

end Outcome

open Outcome in
/-- What an operator makes of the outcomes of its arguments. -/
def Op.applyTo : Op → List Outcome → Outcome
  | .and, outcomes => allTruthy outcomes
  | .or, outcomes => anyTruthy outcomes
  | .not, [outcome] => do return .bool !(← outcome).isTruthy
  | .eq, [left, right] => do
    let a ← left
    let b ← right
    return .bool (a == b)
  | .ne, [left, right] => do
    let a ← left
    let b ← right
    return .bool !(a == b)
  | .gt, [left, right] => ordered left right (· == .gt)
  | .gte, [left, right] => ordered left right (· != .lt)
  | .lt, [left, right] => ordered left right (· == .lt)
  | .lte, [left, right] => ordered left right (· != .gt)
  | .isIn, needle :: candidates => do member (← needle) candidates
  | .add, outcome :: rest => arithmetic .add (outcome :: rest) fun xs => xs.foldl (· + ·) (-0.0)
  | .mul, outcome :: rest => arithmetic .mul (outcome :: rest) fun xs => xs.foldl (· * ·) 1
  | .min, outcome :: rest =>
    arithmetic .min (outcome :: rest) fun xs => xs.foldl lesser (1.0 / 0.0)
  | .max, outcome :: rest =>
    arithmetic .max (outcome :: rest) fun xs => xs.foldl greater (-1.0 / 0.0)
  | .sub, [left, right] => arithmeticPair .sub left right (· - ·)
  | .div, [left, right] => arithmeticPair .div left right fun x y => x / guardDenominator y
  | .ifElse, [condition, thenOutcome, elseOutcome] => do
    if (← condition).isTruthy then thenOutcome else elseOutcome
  | op, outcomes => .error (.arity op outcomes.length)

namespace Expr

mutual

/-- The value of an expression over the facts of a context. -/
def eval (context : Context) : Expr → Outcome
  | .lit value => .ok value
  | .var path => .ok (context.get path)
  | .apply op args => op.applyTo (evalAll context args)

/-- The outcomes of some expressions. -/
def evalAll (context : Context) : List Expr → List Outcome
  | [] => []
  | arg :: rest => eval context arg :: evalAll context rest

end

theorem evalAll_eq_map (context : Context) (args : List Expr) :
    evalAll context args = args.map (eval context) := by
  induction args with
  | nil => rfl
  | cons arg rest ih => rw [evalAll, ih, List.map_cons]

/-- An operator is applied to the outcomes of its arguments. -/
theorem eval_apply (context : Context) (op : Op) (args : List Expr) :
    (apply op args).eval context = op.applyTo (args.map (eval context)) := by
  rw [eval, evalAll_eq_map]

end Expr

end FactScore
