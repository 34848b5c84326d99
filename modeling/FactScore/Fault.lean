/-!
# Faults of data

Why a piece of data is refused when it is read as something in particular.  Only the faults of
expressions have words of their own; every other mismatch is `Fault.malformed`.
-/

namespace FactScore

/-- Why some data does not have the form asked for. -/
inductive Fault where
  /-- The text or the data does not have the right shape. -/
  | malformed
  /-- An expression has arguments but no operator. -/
  | argsWithoutOp
  /-- An expression has none of its forms. -/
  | noForm
  /-- An expression has more than one form. -/
  | severalForms
  deriving DecidableEq, Repr, Inhabited

/-- The wording of a fault, for the faults that have one. -/
def Fault.message : Fault → Option String
  | .malformed => none
  | .argsWithoutOp => some "'args' is only allowed next to 'op'"
  | .noForm => some "expression needs one of 'lit', 'var' or 'op'"
  | .severalForms => some "expression must have only one of 'lit', 'var' or 'op'"

end FactScore
